import LineShell.Script.Run

/-!
# The program that runs scripts

`shell` is the program `sh`: it takes options, and a script that is given after `-c`, that stands in a
file, or that comes from standard input.
-/

namespace LineShell.Script

/-- The bound on the depth of calls in a script. -/
def depth : Nat := 1000000000

/-- Where a script comes from. -/
inductive Origin where
  | argument
  | file
  | standardInput
  deriving DecidableEq

/-- What the arguments of `sh` ask for. -/
structure Invocation where
  options : Options
  origin : Origin
  /-- The arguments after the options. -/
  operands : List Bytes

/-- Reads option letters; a fault is the complaint about one. -/
def optionLetters (on : Bool) : Bytes → Invocation → Except Bytes Invocation
  | [], invocation => .ok invocation
  | letter :: rest, invocation =>
    match Char.ofNat letter.toNat with
    | 'c' => optionLetters on rest { invocation with origin := .argument }
    | 's' => optionLetters on rest { invocation with origin := .standardInput }
    | 'i' | 'l' => optionLetters on rest invocation
    | _ =>
      match Builtin.switched invocation.options on letter with
      | some options => optionLetters on rest { invocation with options }
      | none => .error (ascii "Illegal option -" ++ [letter])

/-- Reads the arguments of `sh`. -/
def invocationOf : List Bytes → Invocation → Except Bytes Invocation
  | [], invocation => .ok invocation
  | argument :: rest, invocation =>
    let found : Invocation := { invocation with operands := argument :: rest }
    match argument with
    | [45] | [45, 45] => .ok { invocation with operands := rest }
    | 45 :: letters => (optionLetters true letters invocation).bind (invocationOf rest)
    | 43 :: letters =>
      if letters.isEmpty then .ok found else (optionLetters false letters invocation).bind (invocationOf rest)
    | _ => .ok found

/-- The arguments of `sh` as a whole: without operands the script comes from standard input. -/
def invocation (arguments : List Bytes) : Except Bytes Invocation := do
  let read ← invocationOf arguments ⟨⟨false, false, false, false⟩, .file, []⟩
  if read.origin = .file && read.operands.isEmpty then return { read with origin := .standardInput }
  if read.origin = .argument && read.operands.isEmpty then throw (ascii "-c requires an argument")
  return read

/-- The state in which a script starts. -/
def State.start (caller : Caller) (name : Bytes) (arguments : List Bytes) (options : Options) : State where
  name := name
  arguments := arguments
  bindings :=
    (ascii "PPID", ⟨some (decimal caller.process.parent), false, false⟩) ::
      (ascii "OPTIND", ⟨some (ascii "1"), false, false⟩) ::
      caller.environment.map fun (name, value) => (name, ⟨some value, true, false⟩)
  functions := []
  actions := []
  deaf := caller.ignored
  pid := caller.process.pid
  parent := caller.process.parent
  status := 0
  inner := 0
  background := []
  options := options
  line := 0
  builtin := none
  loops := 0
  locals := []

/-- Opens a script, under a number that no program sees. -/
def openScript (path : Bytes) : Sh Nat := do
  let fd ← openAt .input path
  let place := freeFrom (← Sh.table) keptFrom
  Sh.run <| Run.modifyTable fun table =>
    match table.get? fd with
    | some slot => (table.put place { slot with closeOnExec := true }).close fd
    | none => table
  return place

/-- Runs a script as the words of a command ask for it. -/
def shell (words : List Bytes) : Run Nat := do
  let caller ← Run.caller
  let given := words.headD []
  match invocation words.tail with
  | .error message =>
    Run.complain (given ++ ascii ": 0: " ++ message)
    return Sh.faultCode
  | .ok invocation =>
    let operands := invocation.operands
    let (name, arguments, body) : Bytes × List Bytes × Sh Unit := match invocation.origin with
      | .argument =>
        (operands.tail.headD given, operands.tail.tail,
          runText depth .usual (operands.headD []))
      | .standardInput => (given, operands, runSource depth (some 0) ⟨1, [], 0⟩)
      | .file =>
        (operands.headD given, operands.tail, do
          let name := (← get).name
          modify fun state => { state with name := given }
          let fd ← openScript name
          modify fun state => { state with name }
          runSource depth (some fd) ⟨1, [], 0⟩)
    let state := State.start caller name arguments invocation.options
    let (result, _) ← StateT.run (ExceptT.run (conclude (runText depth .usual) body)) state
    return result.toOption.getD Sh.faultCode

end LineShell.Script
