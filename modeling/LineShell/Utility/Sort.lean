import LineShell.Utility.Copy

/-!
# Sorting lines

`sort` orders lines by their keys: the whole line, or fields of it asked for by `-k`. Keys are compared
byte by byte, or with `-n` by the number each starts with; lines with equal keys are ordered byte by
byte as a last resort. `-r` turns the order round, `-u` keeps one of each run of lines with equal keys,
`-s` leaves out the last resort, `-c` only checks the order.

Everything is read before anything is written, so that the output may be one of the operands.
-/

namespace LineShell.Utility

/-- How two byte strings are ordered. -/
def compareBytes : Bytes → Bytes → Ordering
  | [], [] => .eq
  | [], _ :: _ => .lt
  | _ :: _, [] => .gt
  | a :: as, b :: bs => if a < b then .lt else if b < a then .gt else compareBytes as bs

/-- A byte between fields. -/
def isFieldBlank (b : UInt8) : Bool := b = 32 || b = 9

/-! ## Numbers -/

/-- The number a line starts with: its sign, its whole part, and the digits of its fraction. -/
structure NumericKey where
  negative : Bool
  whole : Nat
  fraction : Bytes

/-- The number that a key starts with; zero for a key that starts with none. -/
def numericKey (key : Bytes) : NumericKey :=
  let isDigit (b : UInt8) : Bool := 48 ≤ b && b ≤ 57
  let body := key.dropWhile isFieldBlank
  let (minus, body) := match body with
    | 45 :: rest => (true, rest)
    | _ => (false, body)
  let digits := body.takeWhile isDigit
  let whole := (number? digits).getD 0
  let fraction := match body.drop digits.length with
    | 46 :: rest => ((rest.takeWhile isDigit).reverse.dropWhile (· = 48)).reverse
    | _ => []
  ⟨minus && (whole != 0 || !fraction.isEmpty), whole, fraction⟩

/-- How two numbers are ordered. -/
def NumericKey.compare (a b : NumericKey) : Ordering :=
  let size := (Ord.compare a.whole b.whole).then (compareBytes a.fraction b.fraction)
  match a.negative, b.negative with
  | false, false => size
  | true, true => size.swap
  | true, false => .lt
  | false, true => .gt

/-! ## Keys -/

/-- How keys are compared. -/
structure KeyOrder where
  numeric : Bool
  foldCase : Bool
  skipBlanks : Bool
  dictionary : Bool
  reversed : Bool

namespace KeyOrder

/-- The order that option letters ask for. -/
def ofLetters (letters : Bytes) : KeyOrder :=
  let has (letter : Char) : Bool := letters.contains letter.toNat.toUInt8
  ⟨has 'n', has 'f', has 'b', has 'd', has 'r'⟩

/-- A key in the form that is compared byte by byte. -/
def form (o : KeyOrder) (key : Bytes) : Bytes :=
  let key := if o.skipBlanks then key.dropWhile isFieldBlank else key
  let isLetter (b : UInt8) : Bool := 65 ≤ b && b ≤ 90 || 97 ≤ b && b ≤ 122
  let key := if o.dictionary then
      key.filter fun b => isLetter b || 48 ≤ b && b ≤ 57 || isFieldBlank b
    else key
  if o.foldCase then key.map fun b => if 97 ≤ b && b ≤ 122 then b - 32 else b else key

/-- How two keys are ordered. -/
def compare (o : KeyOrder) (a b : Bytes) : Ordering :=
  let order := if o.numeric then (numericKey a).compare (numericKey b)
    else compareBytes (o.form a) (o.form b)
  if o.reversed then order.swap else order

end KeyOrder

/-- One end of a key: a field, a byte in it, and the letters written after them. -/
structure KeyEnd where
  field : Nat
  byte : Option Nat
  letters : Bytes

/-- A key: where it begins, where it ends if not with the line, and its own order if it has one. -/
structure SortKey where
  first : KeyEnd
  last : Option KeyEnd
  order : Option KeyOrder

/-- Reads one end of a key. -/
def keyEnd? (text : Bytes) : Option KeyEnd :=
  let isDigit (b : UInt8) : Bool := 48 ≤ b && b ≤ 57
  let (field, rest) := text.span isDigit
  let (byte, rest) : Option Nat × Bytes := match rest with
    | 46 :: rest => (number? (rest.takeWhile isDigit), rest.dropWhile isDigit)
    | _ => (none, rest)
  (number? field).map fun field => ⟨field, byte, rest⟩

/-- Reads a key. -/
def sortKey? (text : Bytes) : Option SortKey := do
  let (first, last) ← match text.splitOnP (· == 44) with
    | [first] => do pure ((← keyEnd? first), none)
    | [first, last] => do pure ((← keyEnd? first), some (← keyEnd? last))
    | _ => none
  let letters := first.letters ++ (last.map KeyEnd.letters).getD []
  return ⟨first, last, if letters.isEmpty then none else some (.ofLetters letters)⟩

/-- What is left of a line after so many fields. Without a separator a field takes the blanks before
it. -/
def afterFields (separator : Option UInt8) : Nat → Bytes → Bytes
  | 0, line => line
  | count + 1, line =>
    match separator with
    | some b => afterFields separator count ((line.dropWhile (· != b)).drop 1)
    | none => afterFields separator count ((line.dropWhile isFieldBlank).dropWhile (!isFieldBlank ·))

/-- The part of a line that a key stands for. -/
def SortKey.part (k : SortKey) (separator : Option UInt8) (line : Bytes) : Bytes :=
  let start := (afterFields separator (k.first.field - 1) line).drop (k.first.byte.getD 1 - 1)
  match k.last with
  | none => start
  | some last =>
    let before := line.length - start.length
    let ending := match last.byte with
      | none | some 0 =>
        let rest := afterFields separator (last.field - 1) line
        match separator with
        | some b => line.length - (rest.dropWhile (· != b)).length
        | none => line.length - ((rest.dropWhile isFieldBlank).dropWhile (!isFieldBlank ·)).length
      | some byte => line.length - ((afterFields separator (last.field - 1) line).drop byte).length
    start.take (ending - before)

/-! ## The program -/

/-- How lines are ordered by keys, in the order given. -/
def compareKeys (separator : Option UInt8) (usual : KeyOrder) (keys : List SortKey) (a b : Bytes) :
    Ordering :=
  match keys with
  | [] => usual.compare a b
  | keys =>
    keys.foldl (fun order key =>
      order.then ((key.order.getD usual).compare (key.part separator a) (key.part separator b))) .eq

/-- Reads all operands; the first that cannot be read is fatal. -/
def sortInput (operands : List Bytes) : Run (List Bytes) := do
  let parts ← (Run.operandsOr operands).mapM fun path => do
    match ← Run.openOperand path with
    | .error e => Run.die "sort" (ascii "cannot read: " ++ path ++ ascii ": " ++ errorText e) 2
    | .ok fd =>
      match ← Run.readAll fd with
      | .error e => Run.die "sort" (ascii "read failed: " ++ path ++ ascii ": " ++ errorText e) 2
      | .ok bytes =>
        Run.closeOperand path fd
        return linesOf bytes
  return parts.flatten

/-- Writes the sorted lines out, to standard output or to a file. -/
def sortOutput (target : Option Bytes) (bytes : Bytes) : Run Nat := do
  let (name, opened) : Bytes × Except Errno Unit ← match target with
    | none => pure (quoted (ascii "standard output"), .ok ())
    | some path => do
      let opened ← Run.openFile .output path
      if let .ok fd := opened then
        Run.modifyTable fun table => (table.move fd 1).toOption.getD table
      pure (path, opened.map fun _ => ())
  match opened with
  | .error e => Run.fail "sort" (ascii "open failed: " ++ name ++ ascii ": " ++ errorText e) 2
  | .ok () =>
    let written ← Run.print bytes
    let flushed ← Run.flush
    let lost := if target.isNone then Run.warn "sort" (ascii Run.writeFault) else pure ()
    match written, flushed with
    | .error e, _ =>
      Run.setOutput []
      Run.warn "sort" (ascii "write failed: " ++ name ++ ascii ": " ++ errorText e)
      lost
      return 2
    | _, .error e =>
      Run.warn "sort" (ascii "fflush failed: " ++ name ++ ascii ": " ++ errorText e)
      lost
      return 2
    | _, _ => return 0

/-- Writes the lines of its operands in order. -/
def sort : Utility := fun arguments => do
  match optionFault? "bcdfimnrsuz" "kotST" arguments with
  | some fault => Run.usage "sort" fault 2
  | none =>
    let (options, operands) := splitValuedOptions (ascii "kotST") arguments
    let has (letter : Char) : Bool := options.any (·.1 = letter.toNat.toUInt8)
    let value (letter : Char) : Option Bytes := options.lookup letter.toNat.toUInt8
    let keyTexts := (options.filter (·.1 = 107)).map Prod.snd
    match keyTexts.find? fun text => (sortKey? text).isNone with
    | some bad => Run.fail "sort" (ascii "invalid number at field start: invalid count at start of " ++ quoted bad) 2
    | none =>
      let usual := KeyOrder.ofLetters (options.map Prod.fst)
      let separator := (value 't').bind List.head?
      let keys := keyTexts.filterMap sortKey?
      let byKeys := compareKeys separator usual keys
      let plain := keys.isEmpty && !usual.numeric && !usual.foldCase && !usual.skipBlanks && !usual.dictionary
      let order (a b : Bytes) : Ordering :=
        let first := byKeys a b
        if plain || has 'u' || has 's' then first
        else first.then (if usual.reversed then (compareBytes a b).swap else compareBytes a b)
      let lines ← sortInput operands
      if has 'c' then
        let path := operands.headD Run.standardInput
        let wrong := (lines.zip lines.tail).zipIdx.find? fun ((a, b), _) =>
          order a b == .gt || has 'u' && order a b == .eq
        match wrong with
        | none => return 0
        | some ((_, line), i) =>
          Run.warn "sort" (path ++ ascii ":" ++ decimal (i + 2) ++ ascii ": disorder: " ++ line)
          return 1
      else
        let sorted := lines.mergeSort fun a b => order a b != .gt
        let kept := if has 'u' then
            (sorted.foldl (fun done line =>
              if done.head?.any fun last => byKeys last line == .eq then done else line :: done)
              []).reverse
          else sorted
        sortOutput (value 'o') (unlines kept)

end LineShell.Utility
