import LineShell.System.Program

/-!
# What programs share

Printed output is collected and written in whole blocks; the rest is written when the program ends, or
before it complains. `finish` ends a program: output that could not be written is a failure, and the
complaint about it gives the reason only if it is the last of the output that was refused.

The helpers here besides are for operands, which name files or standard input, and for options.
-/

namespace LineShell

/-- The bytes of a string. -/
def ascii (s : String) : Bytes := Utf8.encode s.toList

/-- The bytes of a number in decimal. -/
def decimal (n : Int) : Bytes := Utf8.encode (Text.ofInt n)

/-- A name in quotes. -/
def quoted (name : Bytes) : Bytes := 39 :: name ++ [39]

/-- The text of an error as bytes. -/
def errorText (e : Errno) : Bytes := Utf8.encode e.message

namespace Run

/-! ## Printing -/

/-- The size of the blocks in which printed output is written. -/
def printBlock : Nat := 4096

/-- Replaces the output that waits to be written. -/
def setOutput (output : Bytes) : Run Unit :=
  modifyCaller fun caller => { caller with process := { caller.process with output } }

/-- Writes printed output, and remembers if some was lost. -/
def deliver (bytes : Bytes) : Run (Except Errno Unit) := do
  let result ← write 1 bytes
  if result.toOption.isNone then modifyCaller fun caller => { caller with lostOutput := true }
  return result

/-- Writes out what has been printed. -/
def flush : Run (Except Errno Unit) := do
  match (← read).output with
  | [] => return .ok ()
  | output =>
    setOutput []
    deliver output

/-- Prints: whole blocks are written at once. -/
def print (bytes : Bytes) : Run (Except Errno Unit) := do
  let printed := (← read).output ++ bytes
  let whole := printed.length / printBlock * printBlock
  setOutput (printed.drop whole)
  if whole = 0 then return .ok () else deliver (printed.take whole)

/-- Writes a line to standard error, after all that has been printed. -/
def complain (message : Bytes) : Run Unit := do
  let _ ← flush
  let _ ← write 2 (message ++ [10])

/-- Writes `name: message` to standard error. -/
def warn (name : String) (message : Bytes) : Run Unit :=
  complain (ascii name ++ ascii ": " ++ message)

/-- Complains, and fails with a code. -/
def fail (name : String) (message : Bytes) (code : Nat) : Run Nat := do
  warn name message
  return code

/-- The fault of arguments, with a pointer to the help text. -/
def usage (name : String) (message : Bytes) (code : Nat) : Run Nat := do
  warn name message
  complain (ascii "Try '" ++ ascii name ++ ascii " --help' for more information.")
  return code

/-- Complains and ends the process. -/
def die {α : Type} (name : String) (message : Bytes) (code : Nat) : Run α := do
  setOutput []
  warn name message
  exit code

/-- Prints for a program that gives up, with `fault`, as soon as its output is refused. -/
def printOr (name fault : String) (failure : Nat) (bytes : Bytes) : Run Unit := do
  if let .error e ← print bytes then
    die name (ascii fault ++ ascii ": " ++ errorText e) failure

/-- The fault of output that is refused. -/
def writeFault : String := "write error"

/-- Writes to standard output past what is printed, or gives up. -/
def writeOr (name : String) (bytes : Bytes) : Run Unit := do
  if let .error e ← write 1 bytes then
    die name (ascii writeFault ++ ascii ": " ++ errorText e) 1

/-- Ends a program: its exit code, or `failure` if output was lost. -/
def finish (name : String) (failure code : Nat) : Run Nat := do
  let lost := (← caller).lostOutput
  match ← flush with
  | .error e => fail name (ascii writeFault ++ ascii ": " ++ errorText e) failure
  | .ok () => if lost then fail name (ascii writeFault) failure else return code

/-- Prints and ends a program. -/
def finishWith (name : String) (code : Nat) (bytes : Bytes) : Run Nat := do
  let _ ← print bytes
  finish name 1 code

/-! ## Operands -/

/-- The operand that stands for standard input. -/
def standardInput : Bytes := [45]

/-- Opens an operand for reading. -/
def openOperand (path : Bytes) : Run (Except Errno Nat) :=
  if path = standardInput then return .ok 0 else openFile .input path

/-- Closes an operand. -/
def closeOperand (path : Bytes) (fd : Nat) : Run Unit :=
  if path = standardInput then return () else close fd

/-- The operands, or standard input where there are none. -/
def operandsOr (operands : List Bytes) : List Bytes :=
  if operands.isEmpty then [standardInput] else operands

/-- The complaint about an operand. -/
def operandFault (name : String) (path : Bytes) (e : Errno) : Run Unit :=
  warn name (path ++ ascii ": " ++ errorText e)

/-- Goes through operands in order. One that cannot be opened is complained about and passed over. What
is done with the others tells whether they could be read. The code is 1 after a fault. -/
def eachOperand {σ : Type} (name : String) (operands : List Bytes)
    (step : σ → Bytes → Nat → Run (Except Errno σ)) (state : σ) : Run (Nat × σ) :=
  (operandsOr operands).foldlM (fun (code, state) path => do
    match ← openOperand path with
    | .error e =>
      operandFault name path e
      return (1, state)
    | .ok fd =>
      let result ← step state path fd
      closeOperand path fd
      match result with
      | .ok state => return (code, state)
      | .error e =>
        operandFault name path e
        return (1, state)) (0, state)

/-! ## Lines -/

/-- Cuts bytes at line ends: whole lines without their ends, and what follows the last end. -/
def cutLines (bytes : Bytes) : List Bytes × Bytes :=
  let parts := bytes.splitOnP (· == 10)
  (parts.dropLast, parts.getLastD [])

/-- Reads lines from a descriptor: `step` gets those that each block completes, and at last an
unfinished one; it tells whether to go on. -/
def lines {σ : Type} (fd : Nat) (step : σ → List Bytes → Run (Bool × σ)) (state : σ) :
    Run (Except Errno σ) := do
  let result ← blocks fd (4 * blockSize) (fun (state, rest) block => do
    let (complete, rest) := cutLines (rest ++ block)
    let (goOn, state) ← if complete.isEmpty then pure (true, state) else step state complete
    return (goOn, (state, if goOn then rest else []))) (state, [])
  match result with
  | .error e => return .error e
  | .ok (state, []) => return .ok state
  | .ok (state, rest) =>
    let (_, state) ← step state [rest]
    return .ok state

end Run

/-- The lines of an input, without their ends; what follows the last line end is a line if it is not
empty. -/
def linesOf (bytes : Bytes) : List Bytes :=
  let parts := bytes.splitOnP (· == 10)
  if parts.getLast? = some [] then parts.dropLast else parts

/-- Lines with an end each. -/
def unlines (lines : List Bytes) : Bytes :=
  lines.flatMap (· ++ [10])

/-! ## Arguments -/

/-- The value of a run of decimal digits. -/
def number? (bytes : Bytes) : Option Nat :=
  if bytes.isEmpty || !bytes.all fun b => 48 ≤ b && b ≤ 57 then none
  else some (bytes.foldl (fun n b => n * 10 + (b.toNat - 48)) 0)

/-- The value of decimal digits with an optional sign. -/
def integer? : Bytes → Option Int
  | 45 :: rest => (number? rest).map fun n => -(n : Int)
  | 43 :: rest => (number? rest).map fun n => (n : Int)
  | bytes => (number? bytes).map fun n => (n : Int)

/-- The options and operands among arguments, where the options whose letters are in `valued` take a
value: the rest of their argument, or the next one. A lone minus sign is an operand, and two end the
options. -/
def splitValuedOptions (valued : Bytes) : List Bytes → List (UInt8 × Bytes) × List Bytes
  | [] => ([], [])
  | argument :: rest =>
    if argument = [45, 45] then ([], rest)
    else
      match argument with
      | 45 :: first :: letters =>
        let letters := first :: letters
        let plain := letters.takeWhile (!valued.contains ·)
        let plainOptions := plain.map fun b => (b, [])
        match letters.drop plain.length, rest with
        | [b], value :: rest =>
          let (options, operands) := splitValuedOptions valued rest
          (plainOptions ++ (b, value) :: options, operands)
        | b :: value, rest =>
          let (options, operands) := splitValuedOptions valued rest
          (plainOptions ++ (b, value) :: options, operands)
        | [], rest =>
          let (options, operands) := splitValuedOptions valued rest
          (plainOptions ++ options, operands)
      | _ =>
        let (options, operands) := splitValuedOptions valued rest
        (options, argument :: operands)

/-- The options, as single letters, and the operands among arguments. -/
def splitOptions (arguments : List Bytes) : List UInt8 × List Bytes :=
  let (options, operands) := splitValuedOptions [] arguments
  (options.map Prod.fst, operands)

/-- What is wrong with the options among arguments, if something is: one that is written out, one
whose letter is neither `plain` nor `valued`, or one that lacks its value. -/
def optionFault? (plain valued : String) : List Bytes → Option Bytes
  | [] => none
  | argument :: rest =>
    if argument = [45, 45] then none
    else
      match argument with
      | 45 :: 45 :: _ => some (ascii "unrecognized option " ++ quoted argument)
      | 45 :: letters =>
        match letters.dropWhile (ascii plain).contains with
        | [] => optionFault? plain valued rest
        | b :: value =>
          if !(ascii valued).contains b then some (ascii "invalid option -- " ++ quoted [b])
          else if value.isEmpty then
            match rest with
            | [] => some (ascii "option requires an argument -- " ++ quoted [b])
            | _ :: rest => optionFault? plain valued rest
          else optionFault? plain valued rest
      | _ => optionFault? plain valued rest

end LineShell
