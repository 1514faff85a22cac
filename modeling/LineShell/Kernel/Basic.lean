import LineShell.Kernel.Table
import LineShell.Redirect.Plan
import LineShell.Status
import LineShell.Text.Utf8

/-!
# Processes and the system beneath them

A `Process` holds what is private to a process: its number, its descriptor table, and the standard
output that it has printed but not yet written. All that processes share is a state of some type `σ`,
and a `Kernel σ` says how the calls that the interpreter makes act on it. Nothing above this module
depends on what the state is.
-/

namespace LineShell

/-- The number of a process. -/
abbrev Pid := Nat

/-- What is private to a process. -/
structure Process where
  pid : Pid
  parent : Pid
  table : Table
  /-- Standard output printed but not yet written. -/
  output : Bytes

/-- One outcome of waiting for any child. -/
inductive WaitOutcome where
  /-- A child was reaped, and this is its wait word. -/
  | reaped (pid : Pid) (word : Int32)
  | failed (errno : Errno)
  deriving DecidableEq

/-- What happens to the interpreter while it waits. -/
inductive Event where
  /-- A child of it came to its end. -/
  | ended (pid : Pid) (word : Int32)
  /-- A signal reached it. -/
  | signal (number : Nat)
  /-- Nothing goes on any more, although children of it are left: the wait has no end. -/
  | stuck
  deriving DecidableEq, Repr

/-- The system calls that the interpreter makes, as functions on the state that processes share. Unless
it says otherwise, a system takes all that is written, and lets processes fork. -/
structure Kernel (σ : Type u) where
  /-- Opens a file for a direction, on behalf of a process: for input as it is, for output created or
  emptied, for appending created or kept. A refused call changes nothing. -/
  openFile : Process → Direction → Text → σ → Except Errno (Handle × σ)
  /-- Makes a pipe and gives its number. -/
  newPipe : σ → Except Errno (Nat × σ)
  /-- Writes bytes to where a handle leads, up to where the system takes no more of them. -/
  write : Handle → Bytes → σ → σ
  /-- Where the system would not take all of some bytes: how many it takes, and why no more. -/
  fault : Handle → Bytes → σ → Option (Nat × Errno) := fun _ _ _ => none
  /-- Whether the system lets a process fork. A refusal changes nothing. -/
  fork : Process → σ → Except Errno σ := fun _ s => .ok s
  /-- Puts a program in the place of a process. It goes on by itself while the interpreter waits. -/
  start : List Text → Process → σ → Except Errno σ
  /-- Lets the programs go on until no child of the interpreter is left, or until a signal that the
  predicate holds of reaches the interpreter: what happened to the interpreter, in order. -/
  await : (Nat → Bool) → Process → σ → List Event × σ

/-! ## Paths -/

/-- A path of this many bytes is too long. -/
def pathBound : Nat := 4096

/-- What is wrong with a path by itself: it is empty or too long. -/
def pathFault? (path : Bytes) : Option Errno :=
  if path.isEmpty then some .noEntry
  else if pathBound ≤ path.length then some .nameTooLong
  else none

namespace Process

variable {σ : Type u}

/-- Writes bytes to a descriptor; a closed one swallows them. -/
def write (k : Kernel σ) (p : Process) (fd : Nat) (bytes : Bytes) (s : σ) : σ :=
  match p.table.get? fd with
  | some slot => k.write slot.handle bytes s
  | none => s

/-- Where standard output would not take all of some bytes. A descriptor that cannot be written to
swallows them, as a closed one does. -/
def outputFault? (k : Kernel σ) (p : Process) (bytes : Bytes) (s : σ) : Option (Nat × Errno) :=
  ((p.table.get? 1).bind fun slot => k.fault slot.handle bytes s).filter (·.2 != .badDescriptor)

/-- Why the printed output could not be written out now. -/
def flushFault? (k : Kernel σ) (p : Process) (s : σ) : Option Errno :=
  match p.output with
  | [] => none
  | bytes => (p.outputFault? k bytes s).map Prod.snd

/-- Writes the printed output to standard output. What is not taken stays printed but not written. -/
def flush (k : Kernel σ) (p : Process) (s : σ) : Process × σ :=
  match p.output with
  | [] => (p, s)
  | bytes =>
    let left := (p.outputFault? k bytes s).elim [] fun (taken, _) => bytes.drop taken
    ({ p with output := left }, p.write k 1 bytes s)

/-- Opens a file at the lowest free number, not to stay open in a program started later. The path by
itself is looked at first, and then the table for room. -/
def openFile (k : Kernel σ) (p : Process) (direction : Direction) (path : Text) (s : σ) :
    Except OpenFailure (Nat × Process × σ) :=
  if '\x00' ∈ path then .error .nulInPath
  else
    match pathFault? (Utf8.encode path) with
    | some errno => .error (.refused errno)
    | none =>
      if p.table.capacity ≤ p.table.lowestFree then .error (.refused .tooManyOpen)
      else
        match k.openFile p direction path s with
        | .error errno => .error (.refused errno)
        | .ok (handle, s) =>
          match p.table.insert ⟨handle, true⟩ with
          | .error errno => .error (.refused errno)
          | .ok (fd, table) => .ok (fd, { p with table }, s)

/-- The descriptors of the two ends of a pipe. -/
structure PipeEnds where
  read : Nat
  write : Nat
  deriving DecidableEq, Repr

/-- Opens a pipe at the two lowest free numbers, not to stay open in a program started later
(`Pipe::new`). -/
def openPipe (k : Kernel σ) (p : Process) (s : σ) : Except Errno (PipeEnds × Process × σ) :=
  match k.newPipe s with
  | .error errno => .error errno
  | .ok (id, s) =>
    match p.table.insert ⟨.pipe id .read, true⟩ with
    | .error errno => .error errno
    | .ok (read, table) =>
      match table.insert ⟨.pipe id .write, true⟩ with
      | .error errno => .error errno
      | .ok (write, table) => .ok (⟨read, write⟩, { p with table }, s)

end Process

end LineShell
