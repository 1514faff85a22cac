import LineShell.Redirect.Apply

/-!
# What a child does

A child carries out the redirections of its command and then starts the program that the first
remaining word names. Where no word remains it has done its job and ends with code 0. When it cannot
go on, it writes one diagnostic to standard error and ends with the code of the error: 127 for a
command that does not exist, 126 for one that may not be run, 1 for everything else.
-/

namespace LineShell

/-- Why a program could not be started. -/
inductive LaunchError where
  /-- There is no word to name a program. -/
  | empty
  /-- A word holds a NUL, so that it cannot be passed on. -/
  | nulInWord (command : Text)
  /-- The system refused to start the program. -/
  | refused (command : Text) (errno : Errno)
  deriving DecidableEq, Repr

namespace LaunchError

/-- The text for a launch error. -/
def message : LaunchError → Text
  | .empty => "empty command".toList
  | .nulInWord command => command ++ ": argument contains a NUL byte".toList
  | .refused command errno =>
    command ++ ": ".toList ++
      if errno = .noEntry then "command not found".toList
      else if errno = .accessDenied then "permission denied".toList
      else errno.describe

/-- The exit code that a launch error stands for (`exit_status`). -/
def exitCode : LaunchError → Nat
  | .refused _ errno =>
    if errno = .noEntry then 127 else if errno = .accessDenied then 126 else 1
  | _ => 1

end LaunchError

/-- A diagnostic of the interpreter: its name, the message, and a line end. -/
def diagnostic (message : Text) : Bytes :=
  Utf8.encode ("vsh: ".toList ++ message ++ ['\n'])

variable {σ : Type u}

/-- How far a child got. -/
inductive ChildResult where
  /-- A program took the process over. -/
  | replaced
  /-- No program was started, and the child returns this exit code. -/
  | returned (code : Int)
  deriving DecidableEq, Repr

namespace Process

/-- Starts the program that the first word names (`exec` of the launcher). -/
def launch (k : Kernel σ) (words : List Text) (p : Process) (s : σ) :
    Except LaunchError σ :=
  match words with
  | [] => .error .empty
  | command :: _ =>
    if words.any fun word => '\x00' ∈ word then .error (.nulInWord command)
    else (k.start words { p with table := p.table.forExec } s).mapError (.refused command)

/-- Runs a command in a child: redirections, then the program (`child_main`). -/
def runCommand (k : Kernel σ) (words : List Text) (p : Process) (s : σ) :
    ChildResult × Process × σ :=
  match resolve k words p s with
  | (.error e, p, s) => (.returned 1, p, p.write k 2 (diagnostic e.message) s)
  | (.ok [], p, s) => (.returned 0, p, s)
  | (.ok words, p, s) =>
    match p.launch k words s with
    | .ok s => (.replaced, p, s)
    | .error e => (.returned e.exitCode, p, p.write k 2 (diagnostic e.message) s)

/-- What is left of a child once its work is done: its wait word, if it has come to its end. One that
started no program writes what its copy of the printed output holds before it exits (`exit_child`); one
that did has lost its copy, and goes on. -/
def finish (k : Kernel σ) : ChildResult × Process × σ → Option Int32 × σ
  | (.replaced, _, s) => (none, s)
  | (.returned code, p, s) => (some (Status.exitWord code), (p.flush k s).2)

end Process

end LineShell
