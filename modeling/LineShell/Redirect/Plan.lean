import LineShell.Errno

/-!
# Redirections among the words of a command

`<`, `>` and `>>` are operators only as words of their own; each takes the word after it, whatever
that is, as the path of its file. `plan` takes a list of words apart, from left to right, into the
redirections and the remaining words. An operator that no word follows is an error, and then nothing
is planned at all.
-/

namespace LineShell

/-- The direction of a redirection. -/
inductive Direction where
  /-- `<`: read standard input from a file. -/
  | input
  /-- `>`: write standard output to a file, emptied first. -/
  | output
  /-- `>>`: write standard output to the end of a file. -/
  | append
  deriving DecidableEq, Repr

namespace Direction

/-- The operator that asks for a direction (`RedirectKind::operator`). -/
def operator : Direction → Text
  | .input => ['<']
  | .output => ['>']
  | .append => ['>', '>']

/-- The direction that a word asks for, if it is an operator (`RedirectKind::from_token`). -/
def ofWord? (word : Text) : Option Direction :=
  if word = ['<'] then some .input
  else if word = ['>'] then some .output
  else if word = ['>', '>'] then some .append
  else none

/-- The descriptor that a direction rebinds: standard input or standard output
(`RedirectKind::target_fd`). -/
def descriptor : Direction → Nat
  | .input => 0
  | .output | .append => 1

end Direction

/-- A redirection: where to, and which file. -/
structure Redirect where
  direction : Direction
  target : Text
  deriving DecidableEq, Repr

/-- Why a file could not be opened. -/
inductive OpenFailure where
  /-- The path holds a NUL, so that no system call can name it. -/
  | nulInPath
  | refused (errno : Errno)
  deriving DecidableEq, Repr

/-- The text for a file that could not be opened. -/
def OpenFailure.message : OpenFailure → Text
  | .nulInPath => "file name contained an unexpected NUL byte".toList
  | .refused errno => errno.describe

/-- Why redirections could not be carried out. -/
inductive RedirectError where
  /-- An operator is the last word. -/
  | missingTarget (direction : Direction)
  /-- The file could not be opened. -/
  | unopened (path : Text) (failure : OpenFailure)
  /-- The opened file could not be put in the place of a standard stream. -/
  | unplaced (path : Text) (errno : Errno)
  deriving DecidableEq, Repr

/-- The text for a redirection error. -/
def RedirectError.message : RedirectError → Text
  | .missingTarget direction =>
    "syntax error: missing target after `".toList ++ direction.operator ++ ['\x60']
  | .unopened path failure => path ++ ": ".toList ++ failure.message
  | .unplaced path errno => path ++ ": dup2: ".toList ++ errno.describe

/-- The redirections of a command, in order, and its other words. -/
structure Plan where
  redirects : List Redirect
  words : List Text
  deriving DecidableEq, Repr

/-- Takes the words of a command apart (`plan`). -/
def plan : List Text → Except RedirectError Plan
  | [] => .ok ⟨[], []⟩
  | word :: rest =>
    match Direction.ofWord? word, rest with
    | none, rest => (plan rest).map fun p => { p with words := word :: p.words }
    | some direction, [] => .error (.missingTarget direction)
    | some direction, target :: rest =>
      (plan rest).map fun p => { p with redirects := ⟨direction, target⟩ :: p.redirects }

end LineShell
