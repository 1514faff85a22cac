import LineShell.Utility.Escape

/-!
# Programs that read nothing

`echo`, `printf`, `seq` and `yes` only write; others do nothing but end, at once or after a while.
-/

namespace LineShell.Utility

/-! ## echo -/

/-- Words with a blank between neighbours. -/
def joinWords (words : List Bytes) : Bytes :=
  (words.intersperse [32]).flatten

/-- The option letters of `echo` in front of its words: whether the line end is left out, and whether
escapes are replaced. -/
def echoOptions (noEnd escapes : Bool) : List Bytes → Bool × Bool × List Bytes
  | [] => (noEnd, escapes, [])
  | argument :: rest =>
    match argument with
    | 45 :: first :: more =>
      let letters := first :: more
      if letters.all fun b => b = 110 || b = 101 || b = 69 then
        let escapes := letters.foldl (fun on b => if b = 101 then true else if b = 69 then false else on)
          escapes
        echoOptions (noEnd || letters.contains 110) escapes rest
      else (noEnd, escapes, argument :: rest)
    | _ => (noEnd, escapes, argument :: rest)

/-- Writes its arguments as a line. -/
def echo : Utility := fun arguments => do
  let (noEnd, escapes, words) := echoOptions false false arguments
  let line := joinWords words
  let (line, stopped) := if escapes then unescape true true line else (line, false)
  Run.finishWith "echo" 0 (if noEnd || stopped then line else line ++ [10])

/-! ## printf -/

/-- A conversion of a format. -/
structure Conversion where
  left : Bool
  zeros : Bool
  plus : Bool
  width : Nat
  precision : Option Nat
  letter : UInt8

/-- Reads a conversion after its percent sign. -/
def conversion? (bytes : Bytes) : Option (Conversion × Bytes) :=
  let isFlag (b : UInt8) : Bool := b = 45 || b = 48 || b = 43 || b = 32 || b = 35
  let flags := bytes.takeWhile isFlag
  let (width, _, rest) := leadingDigits 10 9 (bytes.dropWhile isFlag)
  let (precision, rest) :=
    match rest with
    | 46 :: rest => let (p, _, rest) := leadingDigits 10 9 rest; (some p, rest)
    | _ => (none, rest)
  match rest with
  | letter :: rest =>
    some (⟨flags.contains 45, flags.contains 48, flags.contains 43, width, precision, letter⟩, rest)
  | [] => none

/-- A text in a field. -/
def inField (c : Conversion) (text : Bytes) : Bytes :=
  let blanks := List.replicate (c.width - text.length) 32
  if c.left then text ++ blanks else blanks ++ text

/-- A number in a field. -/
def numberField (c : Conversion) (negative : Bool) (digits : Bytes) : Bytes :=
  let digits := List.replicate (c.precision.getD 0 - digits.length) 48 ++ digits
  let sign := if negative then [45] else if c.plus then [43] else []
  if c.zeros && !c.left && c.precision.isNone then
    sign ++ List.replicate (c.width - sign.length - digits.length) 48 ++ digits
  else inField c (sign ++ digits)

/-- What is wrong with a format or its arguments. -/
inductive FormatFault where
  | notNumber (argument : Bytes)
  | notAllNumber (argument : Bytes)
  | badConversion (letter : Bytes)

/-- The text for a fault. -/
def FormatFault.message : FormatFault → Bytes
  | .notNumber argument => quoted argument ++ ascii ": expected a numeric value"
  | .notAllNumber argument => quoted argument ++ ascii ": value not completely converted"
  | .badConversion letter => ascii "%" ++ letter ++ ascii ": invalid conversion specification"

/-- The value of a numeric argument, with a complaint if it is not one. A leading quote stands for the
code of the character after it. -/
def numericArgument (argument : Bytes) : Int × Option FormatFault :=
  match argument with
  | [] => (0, none)
  | 39 :: b :: _ => (b.toNat, none)
  | 34 :: b :: _ => (b.toNat, none)
  | _ =>
    let (negative, body) := match argument with
      | 45 :: rest => (true, rest)
      | 43 :: rest => (false, rest)
      | _ => (false, argument)
    let (value, count, rest) := match body with
      | 48 :: 120 :: rest => leadingDigits 16 16 rest
      | 48 :: rest => let (v, c, r) := leadingDigits 8 22 rest; (v, c + 1, r)
      | _ => leadingDigits 10 20 body
    let value : Int := if negative then -(value : Int) else value
    if count = 0 then (0, some (.notNumber argument))
    else if rest.isEmpty then (value, none)
    else (value, some (.notAllNumber argument))

/-- A number in a base. -/
def inBase (base : Nat) (n : Nat) : Bytes :=
  (Nat.toDigits base n).map fun c => c.toNat.toUInt8

/-- What formatting has brought so far: the output, last byte first, the complaints, the arguments
that are left, and whether the output was stopped. -/
structure Formatted where
  output : Bytes
  complaints : List FormatFault
  arguments : List Bytes
  stopped : Bool

/-- Formats one argument. -/
def formatOne (c : Conversion) (state : Formatted) : Formatted :=
  let argument := state.arguments.headD []
  let state := { state with arguments := state.arguments.tail }
  let emit (bytes : Bytes) : Formatted := { state with output := bytes.reverse ++ state.output }
  let cut (bytes : Bytes) : Bytes := match c.precision with
    | some p => bytes.take p
    | none => bytes
  let numeric (render : Int → Bytes) : Formatted :=
    let (value, complaint) := numericArgument argument
    let state := emit (render value)
    { state with complaints := state.complaints ++ complaint.toList }
  let unsigned (base : Nat) (value : Int) : Bytes :=
    numberField { c with plus := false } false (inBase base (value % Int.pow 2 64).toNat)
  match Char.ofNat c.letter.toNat with
  | 's' => emit (inField c (cut argument))
  | 'c' => emit (inField c (argument.take 1))
  | 'b' =>
    let (bytes, stopped) := unescape true true argument
    { emit (inField c (cut bytes)) with stopped }
  | 'd' => numeric fun value => numberField c (value < 0) (inBase 10 value.natAbs)
  | 'i' => numeric fun value => numberField c (value < 0) (inBase 10 value.natAbs)
  | 'u' => numeric (unsigned 10)
  | 'o' => numeric (unsigned 8)
  | 'x' => numeric (unsigned 16)
  | 'X' => numeric fun value => (unsigned 16 value).map fun b => if 97 ≤ b then b - 32 else b
  | _ =>
    { state with complaints := state.complaints ++ [.badConversion [c.letter]], stopped := true }

/-- Goes through a format once. -/
def formatOnce : Nat → Bytes → Formatted → Formatted
  | fuel + 1, 92 :: after, state =>
    match escape false true after with
    | .bytes value rest => formatOnce fuel rest { state with output := value.reverse ++ state.output }
    | .stop => { state with stopped := true }
  | fuel + 1, 37 :: 37 :: rest, state =>
    formatOnce fuel rest { state with output := 37 :: state.output }
  | fuel + 1, 37 :: rest, state =>
    match conversion? rest with
    | none => { state with complaints := state.complaints ++ [.badConversion []], stopped := true }
    | some (c, rest) =>
      let state := formatOne c state
      if state.stopped then state else formatOnce fuel rest state
  | fuel + 1, b :: rest, state => formatOnce fuel rest { state with output := b :: state.output }
  | _, _, state => state

/-- Goes through a format again as long as it takes arguments and some are left. -/
def formatAll (format : Bytes) : Nat → Formatted → Formatted
  | 0, state => state
  | fuel + 1, state =>
    let next := formatOnce format.length format state
    if next.stopped || next.arguments.isEmpty || next.arguments.length = state.arguments.length then next
    else formatAll format fuel next

/-- Formats arguments. -/
def formatArguments (format : Bytes) (arguments : List Bytes) : Formatted :=
  formatAll format (arguments.length + 1) ⟨[], [], arguments, false⟩

/-- Writes its arguments as a format says. -/
def printf : Utility := fun arguments => do
  let arguments := if arguments.head? = some [45, 45] then arguments.tail else arguments
  match arguments with
  | [] => Run.usage "printf" (ascii "missing operand") 1
  | format :: arguments =>
    let result := formatArguments format arguments
    result.complaints.forM fun fault => Run.warn "printf" fault.message
    Run.finishWith "printf" (if result.complaints.isEmpty then 0 else 1) result.output.reverse

/-! ## seq -/

/-- The number of members of a run of numbers. -/
def runLength (first step last : Int) : Nat :=
  if step = 0 then 0
  else if 0 < step then ((last - first) / step + 1).toNat
  else ((first - last) / (-step) + 1).toNat

/-- Digits filled up with zeros after their sign. -/
def zeroFilled (width : Nat) (digits : Bytes) : Bytes :=
  let (sign, digits) : Bytes × Bytes := match digits with
    | 45 :: digits => ([45], digits)
    | digits => ([], digits)
  sign ++ List.replicate (width - sign.length - digits.length) 48 ++ digits

/-- The text of `count` numbers from `first` on, with `between` after each but the last of all, of which
there are `left`. -/
def runText (first step : Int) (width : Nat) (between : Bytes) (count left : Nat) : Bytes :=
  (List.range count).flatMap fun (i : Nat) =>
    zeroFilled width (decimal (first + step * (i : Int))) ++ if i + 1 = left then [] else between

/-- Prints `left` numbers from `first` on, some hundreds at a time, in at most so many rounds. -/
def printRun (step : Int) (width : Nat) (between : Bytes) : Nat → Int → Nat → Run Unit
  | 0, _, _ => return ()
  | _, _, 0 => return ()
  | rounds + 1, first, left => do
    let count := min left 500
    Run.printOr "seq" Run.writeFault 1 (runText first step width between count left)
    printRun step width between rounds (first + step * (count : Int)) (left - count)

/-- The options of `seq` in front of its numbers: the text between numbers, and whether they are made
equally wide. -/
def seqOptions (between : Bytes) (equalWidth : Bool) : List Bytes → Bytes × Bool × List Bytes
  | [45, 119] :: rest => seqOptions between true rest
  | [45, 115] :: text :: rest => seqOptions text equalWidth rest
  | (45 :: 115 :: text) :: rest => seqOptions text equalWidth rest
  | [45, 45] :: rest => (between, equalWidth, rest)
  | rest => (between, equalWidth, rest)

/-- Writes a run of whole numbers, one a line. -/
def seq : Utility := fun arguments => do
  let (between, equalWidth, arguments) := seqOptions [10] false arguments
  match arguments.find? fun a => (integer? a).isNone with
  | some bad => Run.usage "seq" (ascii "invalid floating point argument: " ++ quoted bad) 1
  | none =>
    let write (first step last : Int) : Run Nat := do
      if step = 0 then
        Run.usage "seq" (ascii "invalid Zero increment value: " ++ quoted (arguments.getD 1 [])) 1
      else
        let count := runLength first step last
        let width := if equalWidth then
            max (decimal first).length (decimal (first + step * (count - 1 : Nat))).length
          else 0
        printRun step width between count first count
        if 0 < count then Run.printOr "seq" Run.writeFault 1 [10]
        Run.finish "seq" 1 0
    match arguments.filterMap integer? with
    | [] => Run.usage "seq" (ascii "missing operand") 1
    | [last] => write 1 1 last
    | [first, last] => write first 1 last
    | [first, step, last] => write first step last
    | _ => Run.usage "seq" (ascii "extra operand " ++ quoted (arguments.getD 3 [])) 1

/-! ## yes -/

/-- Writes a block again and again, until it is refused. -/
def writeAgain (block : Bytes) : Nat → Run Nat
  | 0 => return 1
  | more + 1 => do
    match ← Run.write 1 block with
    | .ok () => writeAgain block more
    | .error e => Run.fail "yes" (ascii "standard output: " ++ errorText e) 1

/-- Writes a line again and again, until nobody reads on. -/
def yes : Utility := fun arguments => do
  let line := (if arguments.isEmpty then ascii "y" else joinWords arguments) ++ [10]
  let block := (List.replicate (Run.blockSize / line.length + 1) line).flatten
  writeAgain block Run.patience

/-! ## Programs that only end -/

/-- Succeeds. -/
def succeed : Utility := fun _ => pure 0

/-- Fails. -/
def refuse : Utility := fun _ => pure 1

/-- The length of a time interval: digits with an optional fraction, and a letter for the unit, which is
seconds where there is none. -/
def interval? (text : Bytes) : Option Nat :=
  let isDigit (b : UInt8) : Bool := 48 ≤ b && b ≤ 57
  let (whole, rest) := text.span isDigit
  let (fraction, rest) := match rest with
    | 46 :: rest => rest.span isDigit
    | _ => ([], rest)
  let unit : Option Nat := match rest with
    | [] => some 1
    | [115] => some 1
    | [109] => some 60
    | [104] => some 3600
    | [100] => some 86400
    | _ => none
  let digits := fraction.take 6 ++ List.replicate (6 - fraction.length) 48
  if whole.isEmpty && fraction.isEmpty then none
  else unit.map fun unit => ((number? whole).getD 0 * 1000000 + (number? digits).getD 0) * unit

/-- Waits for the sum of some time intervals. -/
def sleep : Utility := fun arguments => do
  if arguments.isEmpty then Run.usage "sleep" (ascii "missing operand") 1
  else
    match arguments.filter fun a => (interval? a).isNone with
    | [] =>
      Run.sleep ((arguments.filterMap interval?).foldl (· + ·) 0)
      return 0
    | bad =>
      let faults := bad.map fun a => ascii "sleep: invalid time interval " ++ quoted a
      faults.forM Run.complain
      Run.complain (ascii "Try 'sleep --help' for more information.")
      return 1

end LineShell.Utility
