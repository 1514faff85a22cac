import LineShell.Cli.Parse
import LineShell.System.Console

/-!
# The interpreter at its place of work

A `Station` is a world whose standard streams are set up: standard input is empty, a pipe that holds
bytes, or a terminal; standard output and standard error are files that are in no directory.
`Station.run` is a whole run there, from the arguments to the exit code.
-/

namespace LineShell

/-- Where standard input comes from. -/
inductive StandardInput where
  | nothing
  /-- A pipe that holds these bytes, and that nobody writes to any more. -/
  | bytes (content : Bytes)
  /-- A terminal at which these bytes are typed. -/
  | typed (content : Bytes)

/-- A world with its standard streams. -/
structure Station where
  world : World
  table : Table
  /-- The nodes of standard output and standard error. -/
  output : Nat
  errors : Nat

namespace Station

/-- The bound on descriptors. -/
def descriptorBound : Nat := 1024

/-- A system with a handle for standard input. -/
def withInput (files : FileTree) (input : StandardInput) : Handle × System :=
  match input with
  | .nothing =>
    let (id, files) := files.push (.device .null)
    System.openNode id .input ⟨files, #[], #[], []⟩
  | .bytes content => (.pipe 0 .read, ⟨files, #[], #[content], []⟩)
  | .typed content => (.file 0, ⟨files, #[.terminal], #[], System.typedOf content⟩)

/-- What every program is handed on. -/
def environment : List (Bytes × Bytes) :=
  [(ascii "PATH", (searchPath.intersperse [58]).flatten), (ascii "LC_ALL", ascii "C")]

/-- A world over a file tree; programs are handed on some more names and values. -/
def boot (files : FileTree) (input : StandardInput) (more : List (Bytes × Bytes)) : Station :=
  let (output, files) := files.push (.file files.fileMode [])
  let (errors, files) := files.push (.file files.fileMode [])
  let (first, system) := withInput files input
  let (second, system) := system.openNode output .append
  let (third, system) := system.openNode errors .append
  let slots := [first, second, third].map fun handle => some ⟨handle, false⟩
  ⟨.ofSystem system (environment ++ more), ⟨slots, descriptorBound⟩, output, errors⟩

/-- The content of a node, such as what was written to a standard stream. -/
def content (w : World) (id : Nat) : Bytes :=
  (w.system.bytesFrom id 0).toOption.getD []

/-- The world with a node emptied. -/
def clear (w : World) (id : Nat) : World :=
  let files := w.system.files
  { w with system := { w.system with files := files.set id (.file (files.mode id) []) } }

/-- The number of the interpreter's process. -/
def interpreterPid : Pid := 2

/-- What signals do to the interpreter. -/
def disposition (signal : Nat) : Disposition :=
  if signal = 2 then .remembered
  else if signal = 13 || World.harmless.contains signal then .ignored
  else .fatal

/-- The interpreter in a world. -/
def machine (station : Station) (disposition : Nat → Disposition) : Machine World where
  process := ⟨interpreterPid, 1, station.table, []⟩
  interrupted := false
  outcomes := []
  nextPid := interpreterPid + 1
  disposition := disposition
  halted := none
  world := station.world

end Station

/-! ## Whole runs -/

/-- How a run came to its end. -/
inductive RunResult where
  | exited (code : Nat)
  | killed (signal : Nat)
  deriving DecidableEq, Repr

/-- The exit code of a run whose arguments are at fault. -/
def usageStatus : Nat := 2

/-- The exit code of a run that gives up. -/
def panicStatus : Nat := 101

/-- A run with arguments: its end, and the world afterwards. At most `limit` lines are read; a run that
reads more, or that waits without an end, has no result. -/
def Station.run (station : Station) (env : Environment) (arguments : List Text) (limit : Nat) :
    Option (RunResult × World) :=
  let log := Log.filterOf env.log
  let m := (station.machine disposition).write Kernel.inMemory 2 (Utf8.encode log.complaints)
  match Cli.parse env arguments with
  | .error .displayHelp =>
    some (.exited 0, (m.print Kernel.inMemory (Utf8.encode Cli.helpText)).world)
  | .error .displayVersion =>
    some (.exited 0, (m.print Kernel.inMemory (Utf8.encode Cli.versionText)).world)
  | .error e => some (.exited usageStatus, (m.write Kernel.inMemory 2 (Utf8.encode e.report)).world)
  | .ok config =>
    match (Machine.console log).run env config limit m with
    | none => none
    | some (status, m) =>
      match m.halted with
      | none => some (.exited (Console.exitCode status), (m.flush Kernel.inMemory).world)
      | some (.signal number, world) => some (.killed number, world)
      | some (.panic, world) => some (.exited panicStatus, world)
      | some (.stuck, _) => none

end LineShell
