import LineShell.Utility.Copy
import LineShell.Utility.Escape

/-!
# Programs that write a part of their input

`head` and `tail`. Both write so many lines or bytes from one end of each operand, or all but so many
from the other end.

* `head` stops reading once it has what it wants. Where standard input is a file, it goes back to just
  after the last line that it took, so that others can read on there.
* `tail` reads everything, unless it is asked for nothing.
-/

namespace LineShell.Utility

/-- How much of an input is asked for. -/
structure Amount where
  inBytes : Bool
  count : Nat
  /-- What is asked for is all but so much at the other end; for `tail` all from the line or byte of
  that number on. -/
  opposite : Bool

/-- How the parts of several operands are set off by headings. -/
inductive Headings where
  | ifSeveral
  | always
  | never
  deriving DecidableEq

/-- What the arguments ask for. -/
structure PartRequest where
  amount : Amount
  headings : Headings
  operands : List Bytes

/-- The factor that a suffix of an amount stands for. -/
def amountFactor? (suffix : Bytes) : Option Nat :=
  if suffix.isEmpty then some 1
  else if suffix = ascii "b" then some 512
  else
    [("K", 1), ("M", 2), ("G", 3)].findSome? fun (letter, power) =>
      if suffix = ascii letter || suffix = ascii (letter ++ "iB") then some (Nat.pow 1024 power)
      else if suffix = ascii (letter ++ "B") then some (Nat.pow 1000 power)
      else if letter = "K" && suffix = ascii "k" then some 1024
      else if letter = "M" && suffix = ascii "m" then some (Nat.pow 1024 2)
      else none

/-- Reads an amount: digits with an optional suffix; `mark` in front of it asks for the other end. -/
def amount? (mark : UInt8) (inBytes : Bool) (text : Bytes) : Option Amount :=
  let (opposite, body) := match text with
    | sign :: rest =>
      if sign = mark then (true, rest) else if sign = 45 || sign = 43 then (false, rest) else (false, text)
    | [] => (false, text)
  let digits := body.takeWhile fun b => 48 ≤ b && b ≤ 57
  match number? digits, amountFactor? (body.drop digits.length) with
  | some n, some factor => some ⟨inBytes, n * factor, opposite⟩
  | _, _ => none

/-- Reads the arguments of `head` and `tail`; an error is a complaint, and whether a pointer to the help
text follows. -/
def partRequest (mark : UInt8) (request : PartRequest) : List Bytes → Except (Bytes × Bool) PartRequest
  | [] => .ok { request with operands := request.operands.reverse }
  | argument :: rest =>
    match argument, rest with
    | [45, 45], rest => .ok { request with operands := request.operands.reverse ++ rest }
    | [45, 110], value :: rest => set false value rest
    | [45, 99], value :: rest => set true value rest
    | 45 :: 110 :: first :: value, rest => set false (first :: value) rest
    | 45 :: 99 :: first :: value, rest => set true (first :: value) rest
    | [45, 113], rest => partRequest mark { request with headings := .never } rest
    | [45, 118], rest => partRequest mark { request with headings := .always } rest
    | [45], rest => partRequest mark { request with operands := Run.standardInput :: request.operands } rest
    | 45 :: first :: more, rest =>
      if 48 ≤ first && first ≤ 57 then set false (first :: more) rest
      else
        .error ((optionFault? "qv" "nc" [argument]).getD (ascii "invalid option -- " ++ quoted [first]), true)
    | operand, rest => partRequest mark { request with operands := operand :: request.operands } rest
where
  /-- Takes an amount, and goes on with the other arguments. -/
  set (inBytes : Bool) (value : Bytes) (rest : List Bytes) : Except (Bytes × Bool) PartRequest :=
    match amount? mark inBytes value with
    | some amount => partRequest mark { request with amount } rest
    | none =>
      let what := if inBytes then "invalid number of bytes: " else "invalid number of lines: "
      .error (ascii what ++ quoted value, false)

/-- The length of the first `count` lines. -/
def firstLinesLength (count : Nat) (bytes : Bytes) : Nat :=
  go count 0 bytes
where
  /-- Goes on after so many bytes. -/
  go : Nat → Nat → Bytes → Nat
    | 0, length, _ => length
    | _, length, [] => length
    | count + 1, length, b :: rest => go (if b = 10 then count else count + 1) (length + 1) rest

/-- The length of the last `count` lines. -/
def lastLinesLength (count : Nat) (bytes : Bytes) : Nat :=
  let lineCount := bytes.count 10 + if bytes.getLast?.any (· != 10) then 1 else 0
  bytes.length - firstLinesLength (lineCount - count) bytes

/-- Prints a part, or gives up. -/
def printPart (name : String) (bytes : Bytes) : Run Unit :=
  Run.printOr name "error writing 'standard output'" 1 bytes

/-- Goes through operands, with a heading for each if that is asked for. -/
def eachPart (name : String) (request : PartRequest) (part : Nat → Run (Except Errno Unit)) :
    Run Nat := do
  let operands := Run.operandsOr request.operands
  let headed := request.headings = .always || request.headings = .ifSeveral && 1 < operands.length
  let shown (path : Bytes) : Bytes :=
    if path = Run.standardInput then ascii "standard input" else path
  let (code, _) ← operands.foldlM (fun (code, isFirst) path => do
    match ← Run.openOperand path with
    | .error e =>
      Run.warn name (ascii "cannot open " ++ quoted path ++ ascii " for reading: " ++ errorText e)
      return (1, isFirst)
    | .ok fd =>
      if headed then
        printPart name ((if isFirst then [] else [10]) ++ ascii "==> " ++ shown path ++ ascii " <==\n")
      let result ← part fd
      Run.closeOperand path fd
      match result with
      | .ok () => return (code, false)
      | .error e =>
        Run.warn name (ascii "error reading " ++ quoted (shown path) ++ ascii ": " ++ errorText e)
        return (1, false)) (0, true)
  Run.finish name 1 code

/-- What both programs do where nothing else is asked for: ten lines. -/
def PartRequest.usual : PartRequest := ⟨⟨false, 10, false⟩, .ifSeveral, []⟩

/-- Complains about arguments. -/
def partFault (name : String) (fault : Bytes × Bool) : Run Nat :=
  if fault.2 then Run.usage name fault.1 1 else Run.fail name fault.1 1

/-! ## head -/

/-- Goes back in a descriptor that leads to a file. -/
def goBack (fd count : Nat) : Run Unit := do
  match ← Run.handle? fd with
  | some (.file file) =>
    modify fun s => match s.opened[file]? with
      | some (.node _ position _) => s.seek file (position - count)
      | _ => s
  | _ => return

/-- Prints the first lines of a descriptor. -/
def headLines (fd count : Nat) : Run (Except Errno Unit) := do
  if count = 0 then return .ok ()
  let result ← Run.blocks fd Run.blockSize (fun (left : Nat) block => do
    let length := firstLinesLength left block
    let left := left - (block.take length).count 10
    if left = 0 then goBack fd (block.length - length)
    printPart "head" (block.take length)
    return (left != 0, left)) count
  return result.map fun _ => ()

/-- Prints the first bytes of a descriptor, in at most so many rounds. -/
def headBytes (fd : Nat) : Nat → Nat → Run (Except Errno Unit)
  | 0, _ => return .ok ()
  | _, 0 => return .ok ()
  | rounds + 1, count => do
    match ← Run.readSome fd (min count Run.blockSize) with
    | .error e => return .error e
    | .ok [] => return .ok ()
    | .ok block =>
      printPart "head" block
      headBytes fd rounds (count - block.length)

/-- Prints all but the end of a descriptor. -/
def headButEnd (fd : Nat) (ending : Bytes → Nat) : Run (Except Errno Unit) := do
  match ← Run.readAll fd with
  | .error e => return .error e
  | .ok bytes =>
    printPart "head" (bytes.take (bytes.length - ending bytes))
    return .ok ()

/-- Writes the beginning of each operand. -/
def head : Utility := fun arguments => do
  match partRequest 45 .usual arguments with
  | .error fault => partFault "head" fault
  | .ok request =>
    eachPart "head" request fun fd =>
      let count := request.amount.count
      match request.amount.inBytes, request.amount.opposite with
      | false, false => headLines fd count
      | true, false => headBytes fd count count
      | false, true => headButEnd fd (lastLinesLength count)
      | true, true => headButEnd fd fun _ => count

/-! ## tail -/

/-- The end of an input that is asked for. -/
def Amount.ending (amount : Amount) (bytes : Bytes) : Bytes :=
  match amount.inBytes, amount.opposite with
  | false, false => bytes.drop (bytes.length - lastLinesLength amount.count bytes)
  | true, false => bytes.drop (bytes.length - amount.count)
  | false, true => bytes.drop (firstLinesLength (amount.count - 1) bytes)
  | true, true => bytes.drop (amount.count - 1)

/-- Writes the end of each operand. -/
def tail : Utility := fun arguments => do
  match partRequest 43 .usual arguments with
  | .error fault => partFault "tail" fault
  | .ok request =>
    if request.amount.count = 0 && !request.amount.opposite then return 0
    eachPart "tail" request fun fd => do
      match ← Run.readAll fd with
      | .error e => return .error e
      | .ok bytes =>
        printPart "tail" (request.amount.ending bytes)
        return .ok ()

end LineShell.Utility
