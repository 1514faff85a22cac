import LineShell.Script.Syntax
import LineShell.System.Executable
import LineShell.Utility.Basic

/-!
# The state of a script

A script runs as one process. Its state holds what its parameters and functions stand for and what it
does on signals. `Sh α` is a piece of such a process that brings a value, or leaves what it is part of:
a loop, a function, or the whole script.
-/

namespace LineShell.Script

/-- A variable. -/
structure Variable where
  value : Option Bytes
  /-- It is handed on to the programs that the script starts. -/
  exported : Bool
  /-- It may not be set again. -/
  fixed : Bool

/-- Switches of a script. -/
structure Options where
  /-- The script ends after a command that fails. -/
  errorExit : Bool
  /-- Parameters that are not set are faults. -/
  strict : Bool
  /-- Commands are shown before they are carried out. -/
  trace : Bool
  /-- Words do not stand for names of files. -/
  noNames : Bool

/-- The state of a script. -/
structure State where
  /-- The name of the script. -/
  name : Bytes
  arguments : List Bytes
  bindings : List (Bytes × Variable)
  functions : List (Bytes × Statement)
  /-- The actions set for signals; number 0 is the end of the script. -/
  actions : List (Nat × Bytes)
  /-- Signals that were ignored when the script started, which stays so. -/
  deaf : List Nat
  /-- The number of the script's process, and that of the process that started it. -/
  pid : Pid
  parent : Pid
  /-- The exit code of the last command. -/
  status : Nat
  /-- The exit code of the last script whose output was put in a word. -/
  inner : Nat
  /-- The processes that were not waited for, the last one first. -/
  background : List Pid
  options : Options
  /-- The line of the statement at hand. -/
  line : Nat
  /-- The builtin at hand, which complaints name. -/
  builtin : Option Bytes
  /-- How many loops are open. -/
  loops : Nat
  /-- The variables that the open functions keep to themselves, with what they were before. -/
  locals : List (List (Bytes × Option Variable))

/-- Where control goes, other than on. -/
inductive Leave where
  /-- The script ends with this code. -/
  | ending (code : Nat)
  /-- What is carried out is at fault; most builtins only fail then, and else the script ends. -/
  | fault
  /-- So many loops are left. -/
  | breaking (levels : Nat)
  /-- So many loops are left but one, which goes on with its next round. -/
  | continuing (levels : Nat)
  /-- A function, or the text of another script, is left. -/
  | returning

/-- A piece of a script's process. -/
abbrev Sh := ExceptT Leave (StateT State Run)

namespace Sh

/-- A piece of any process is one of a script's. -/
def run {α : Type} (piece : Run α) : Sh α :=
  ExceptT.lift (StateT.lift piece)

/-- The descriptors of the process. -/
def table : Sh Table := do
  return (← run Run.caller).process.table

/-- Does something whatever way a piece comes to its end. -/
def ensuring {α : Type} (piece : Sh α) (after : Sh Unit) : Sh α := do
  let result ← observing piece
  after
  match result with
  | .ok value => return value
  | .error leave => throw leave
where
  /-- The result of a piece. -/
  observing (piece : Sh α) : Sh (Except Leave α) :=
    tryCatch (piece >>= fun value => pure (.ok value)) fun leave => pure (.error leave)

/-- The state with the exit code of a command. -/
def setStatus (status : Nat) : Sh Unit :=
  modify fun state => { state with status }

/-! ## Complaints -/

/-- Writes a complaint about the statement at hand. -/
def complain (message : Bytes) : Sh Unit := do
  let state ← get
  let builtin := state.builtin.elim [] fun name => name ++ ascii ": "
  run <| Run.complain <|
    state.name ++ ascii ": " ++ decimal state.line ++ ascii ": " ++ builtin ++ message

/-- The exit code after a fault. -/
def faultCode : Nat := 2

/-- Complains, and gives up. -/
def stop {α : Type} (message : Bytes) : Sh α := do
  complain message
  throw .fault

/-- Complains, and gives the exit code of the fault. -/
def refuse (message : Bytes) : Sh Nat := do
  complain message
  return faultCode

/-! ## Variables -/

/-- The blanks, tabs and line ends at which values are split, where nothing else is set. -/
def usualSeparators : Bytes := [32, 9, 10]

/-- The value of a variable. -/
def lookup? (name : Bytes) : Sh (Option Bytes) := do
  return ((← get).bindings.lookup name).bind Variable.value

/-- The bytes at which values are split. -/
def separators : Sh Bytes := do
  return (← lookup? (ascii "IFS")).getD usualSeparators

/-- Replaces a variable, or takes it away. -/
def setVariable (name : Bytes) (value : Option Variable) : Sh Unit :=
  modify fun state =>
    let others := state.bindings.filter fun entry => entry.1 != name
    { state with bindings := value.elim others fun value => (name, value) :: others }

/-- Insists that a variable may be set. -/
def demandSettable (name : Bytes) : Sh Unit := do
  if ((← get).bindings.lookup name).any Variable.fixed then stop (name ++ ascii ": is read only")

/-- Sets a variable, and exports it if that is asked for. -/
def assign (name value : Bytes) (exported : Bool) : Sh Unit := do
  demandSettable name
  let before := (← get).bindings.lookup name
  setVariable name (some ⟨some value, exported || before.any Variable.exported, false⟩)

/-- The value of a parameter, if it is set. -/
def parameter? (name : Bytes) : Sh (Option Bytes) := do
  let state ← get
  if name = ascii "$" then return some (decimal state.pid)
  else if name = ascii "?" then return some (decimal state.status)
  else if name = ascii "#" then return some (decimal state.arguments.length)
  else if name = ascii "!" then return state.background.head?.map fun pid => decimal pid
  else if name = ascii "-" then
    let letter (on : Bool) (b : UInt8) : Bytes := if on then [b] else []
    return some (letter state.options.errorExit 101 ++ letter state.options.noNames 102 ++
      letter state.options.trace 120 ++ letter state.options.strict 117)
  else if name = ascii "@" || name = ascii "*" then
    if state.arguments.isEmpty then return none
    let separator := ((← lookup? (ascii "IFS")).getD usualSeparators).take 1
    return some (state.arguments.intersperse separator).flatten
  else
    match number? name with
    | some 0 => return some state.name
    | some n => return state.arguments[n - 1]?
    | none => lookup? name

/-- The variables that are handed on to programs. -/
def exports : Sh (List (Bytes × Bytes)) := do
  return (← get).bindings.filterMap fun (name, entry) =>
    if entry.exported then entry.value.map fun value => (name, value) else none

/-- The directories in which programs are looked for. -/
def searchDirectories : Sh (List Bytes) := do
  match ← lookup? (ascii "PATH") with
  | some path => return path.splitOnP (· == 58)
  | none => return searchPath

end Sh

end LineShell.Script
