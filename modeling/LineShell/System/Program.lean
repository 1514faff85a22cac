import LineShell.Status
import LineShell.System.Basic

/-!
# Programs

A `Program` is what a process does from some moment on: a tree of system calls, each of which goes on
with what the call brought. Most calls are an `attempt` at changing the system, which may have to wait;
those that concern other processes have constructors of their own.

`Run α` is a piece of a program that brings a value: given what comes after, it is a program. Pieces are
put together by `do`. A piece that never comes back, such as `Run.exit`, drops what comes after it.
-/

namespace LineShell

/-- A process as its program sees it. -/
structure Caller where
  process : Process
  /-- The directory from which its paths start. -/
  directory : Nat
  /-- The bits of a mode that the files it makes lack. -/
  mask : Nat
  /-- Names and values that it hands on to the programs it starts. -/
  environment : List (Bytes × Bytes)
  /-- The signals that do nothing to it. -/
  ignored : List Nat
  /-- The signals that it wants to be told of instead of being ended by them. -/
  caught : List Nat
  /-- Those of them that have arrived, in order. -/
  arrived : List Nat
  /-- Output was lost because it could not be written. -/
  lostOutput : Bool

/-- What a system call finds. -/
structure Scene where
  caller : Caller
  system : System
  /-- Some process has a descriptor that leads to this handle. -/
  isHeld : Handle → Bool

/-- What a process does. Times are in millionths of a second. -/
inductive Program where
  /-- It comes to its end, with a wait word. -/
  | exit (word : Int32)
  /-- It makes a system call: what it does then, with the process and the system as the call leaves
  them. No result means that the call has to wait. -/
  | call (attempt : Scene → Option (Program × Caller × System))
  | sleep (duration : Nat) (next : Program)
  /-- A copy of the process does something of its own. -/
  | fork (child : Program) (next : Pid → Program)
  /-- It waits for the end of a child. -/
  | wait (child : Pid) (next : Int32 → Program)
  /-- It sends a signal; the answer tells whether there was somebody to get it. -/
  | kill (target : Pid) (signal : Nat) (next : Bool → Program)
  /-- It starts the program that words name in its place, looked for in directories, and goes on only if
  that is refused. -/
  | exec (directories words : List Bytes) (next : Errno → Program)

/-- A piece of a program that brings a value. -/
def Run (α : Type) : Type := (α → Program) → Program

/-- A program that is given by the arguments after its name, and ends with an exit code. -/
abbrev Utility := List Bytes → Run Nat

namespace Run

variable {α : Type}

instance : Monad Run where
  pure a := fun next => next a
  bind piece f := fun next => piece fun a => f a next

/-- The program of a piece that brings an exit code. -/
def toProgram (piece : Run Nat) : Program :=
  piece fun code => .exit (Status.exitWord code)

/-! ## System calls -/

/-- Makes a system call that may have to wait. -/
def attempt (f : Scene → Option (α × Caller × System)) : Run α := fun next =>
  .call fun scene => (f scene).map fun (a, after) => (next a, after)

/-- Looks at the process. -/
def caller : Run Caller :=
  attempt fun scene => some (scene.caller, scene.caller, scene.system)

/-- Changes the process. -/
def modifyCaller (f : Caller → Caller) : Run Unit :=
  attempt fun scene => some ((), f scene.caller, scene.system)

/-- The process alone, which a piece may look at. -/
instance : MonadReaderOf Process Run where
  read := do return (← caller).process

/-- The system, which a piece may look at and change. -/
instance : MonadStateOf System Run where
  get := attempt fun scene => some (scene.system, scene.caller, scene.system)
  set system := attempt fun scene => some ((), scene.caller, system)
  modifyGet f := attempt fun scene =>
    let (a, system) := f scene.system
    some (a, scene.caller, system)

/-- Ends the process. -/
def exit (code : Nat) : Run α := fun _ => .exit (Status.exitWord code)

/-- Lets time pass. -/
def sleep (duration : Nat) : Run Unit := fun next => .sleep duration (next ())

/-- Starts a copy of the process that does something of its own. -/
def fork (child : Program) : Run Pid := fun next => .fork child next

/-- Waits for the end of a child. -/
def wait (child : Pid) : Run Int32 := fun next => .wait child next

/-- Sends a signal. -/
def kill (target : Pid) (signal : Nat) : Run Bool := fun next => .kill target signal next

/-- Starts a program in the place of this one; comes back only if that is refused. -/
def exec (directories words : List Bytes) : Run Errno := fun next => .exec directories words next

/-! ## Descriptors -/

/-- What a descriptor of the process leads to. -/
def handle? (fd : Nat) : Run (Option Handle) := do
  return ((← read).table.get? fd).map Slot.handle

/-- Changes the table of descriptors. -/
def modifyTable (f : Table → Table) : Run Unit :=
  modifyCaller fun caller =>
    { caller with process := { caller.process with table := f caller.process.table } }

/-- Closes a descriptor. -/
def close (fd : Nat) : Run Unit :=
  modifyTable fun table => table.close fd

/-- Opens a file at the lowest free number. -/
def openFile (direction : Direction) (path : Bytes) : Run (Except Errno Nat) :=
  attempt fun scene =>
    let process := scene.caller.process
    let opened : Except Errno (Nat × Table × System) := do
      FileTree.checkPath path
      if process.table.capacity ≤ process.table.lowestFree then throw .tooManyOpen
      let (handle, system) ← scene.system.openFile process.table direction path
      let (fd, table) ← process.table.insert ⟨handle, false⟩
      return (fd, table, system)
    some <| match opened with
      | .ok (fd, table, system) =>
        (.ok fd, { scene.caller with process := { process with table } }, system)
      | .error errno => (.error errno, scene.caller, scene.system)

/-- Reads at most `limit` bytes; none mean the end of the input. -/
def readSome (fd limit : Nat) : Run (Except Errno Bytes) :=
  attempt fun scene =>
    match scene.caller.process.table.get? fd with
    | none => some (.error .badDescriptor, scene.caller, scene.system)
    | some slot =>
      (scene.system.read scene.isHeld slot.handle limit).map fun (result, system) =>
        (result, scene.caller, system)

/-- Writes as many bytes as there is room for. -/
def writeSome (fd : Nat) (bytes : Bytes) : Run (Except Errno Nat) :=
  attempt fun scene =>
    match scene.caller.process.table.get? fd with
    | none => some (.error .badDescriptor, scene.caller, scene.system)
    | some slot =>
      (scene.system.writeSome scene.isHeld slot.handle bytes).map fun (result, system) =>
        (result, scene.caller, system)

/-- Writes all of some bytes, in as many calls as that takes; `calls` bounds their number. -/
def writeOn (fd : Nat) : Nat → Bytes → Run (Except Errno Unit)
  | 0, _ => return .ok ()
  | _, [] => return .ok ()
  | calls + 1, bytes => do
    match ← writeSome fd bytes with
    | .error errno => return .error errno
    | .ok count => writeOn fd calls (bytes.drop count)

/-- Writes all of some bytes; where there are none, nothing is done. -/
def write (fd : Nat) (bytes : Bytes) : Run (Except Errno Unit) :=
  writeOn fd bytes.length bytes

/-- How often a program does something that has no end by itself. -/
def patience : Nat := 1000000000000

/-- Reads a descriptor to its end, block by block; what is done with a block tells whether to go on. -/
def blocks {σ : Type} (fd size : Nat) (step : σ → Bytes → Run (Bool × σ)) (state : σ) :
    Run (Except Errno σ) :=
  go patience state
where
  /-- Goes on for at most so many blocks. -/
  go : Nat → σ → Run (Except Errno σ)
    | 0, state => return .ok state
    | more + 1, state => do
      match ← readSome fd size with
      | .error errno => return .error errno
      | .ok [] => return .ok state
      | .ok block =>
        let (goOn, state) ← step state block
        if goOn then go more state else return .ok state

/-- The size of the blocks in which most programs read. -/
def blockSize : Nat := 8192

/-- Reads a descriptor to its end. -/
def readAll (fd : Nat) : Run (Except Errno Bytes) := do
  let collected ← blocks fd (8 * blockSize) (fun parts block => return (true, block :: parts)) []
  return collected.map fun parts => parts.reverse.flatten

/-- Applies a function to the file tree. -/
def files : Run FileTree := do
  return (← get).files

/-- Replaces the file tree. -/
def setFiles (files : FileTree) : Run Unit :=
  modify fun s => { s with files }

end Run

end LineShell
