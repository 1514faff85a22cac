import LineShell.Utility.Copy

/-!
# Programs that work line by line

`uniq` writes one line of each run of equal ones, `cut` parts of each line. Both write as they read.
-/

namespace LineShell.Utility

/-! ## uniq -/

/-- Which lines `uniq` writes, and how. -/
structure RunDisplay where
  counted : Bool
  repeatedOnly : Bool
  uniqueOnly : Bool

/-- What is written of a run of equal lines. -/
def RunDisplay.row (d : RunDisplay) (count : Nat) (line : Bytes) : Bytes :=
  if d.repeatedOnly && count = 1 || d.uniqueOnly && 1 < count then []
  else (if d.counted then rightAligned 7 count ++ [32] else []) ++ line ++ [10]

/-- The part of a line by which `uniq` compares. -/
def runKey (ignoreCase : Bool) (fields bytes : Nat) (line : Bytes) : Bytes :=
  let isBlank (b : UInt8) : Bool := b = 32 || b = 9
  let skipField (line : Bytes) : Bytes := (line.dropWhile isBlank).dropWhile (!isBlank ·)
  let rest := (fields.repeat skipField line).drop bytes
  if ignoreCase then rest.map fun b => if 65 ≤ b && b ≤ 90 then b + 32 else b else rest

/-- Writes one of each run of equal lines. -/
def uniq : Utility := fun arguments => do
  match optionFault? "cdui" "fsw" arguments with
  | some fault => Run.usage "uniq" fault 1
  | none =>
    let (options, operands) := splitValuedOptions (ascii "fsw") arguments
    let has (letter : Char) : Bool := options.any (·.1 = letter.toNat.toUInt8)
    let value (letter : Char) : Nat :=
      ((options.lookup letter.toNat.toUInt8).bind number?).getD 0
    let display : RunDisplay := ⟨has 'c', has 'd', has 'u'⟩
    let key := runKey (has 'i') (value 'f') (value 's')
    let put := Run.printOr "uniq" Run.writeFault 1
    let step (run : Option (Nat × Bytes)) (line : Bytes) : Bytes × Option (Nat × Bytes) :=
      match run with
      | none => ([], some (1, line))
      | some (count, first) =>
        if key first = key line then ([], some (count + 1, first))
        else (display.row count first, some (1, line))
    let path := operands.headD Run.standardInput
    match ← Run.openOperand path with
    | .error e =>
      Run.operandFault "uniq" path e
      return 1
    | .ok fd =>
      if let some target := operands[1]? then
        Run.close 1
        if let .error e ← Run.openFile .output target then
          Run.operandFault "uniq" target e
          Run.exit 1
      let result ← Run.lines fd (fun run lines => do
        let (rows, run) := lines.foldl (fun (rows, run) line =>
          let (row, run) := step run line
          (row :: rows, run)) (([] : List Bytes), run)
        put rows.reverse.flatten
        return (true, run)) none
      match result with
      | .error e => Run.fail "uniq" (ascii "error reading " ++ quoted path ++ ascii ": " ++ errorText e) 1
      | .ok run =>
        if let some (count, line) := run then put (display.row count line)
        Run.finish "uniq" 1 0

/-! ## cut -/

/-- A list of positions: single ones and ranges, with commas between. -/
def positions? (text : Bytes) : Option (List (Nat × Option Nat)) :=
  (text.splitOnP (· == 44)).mapM fun range =>
    match range.splitOnP (· == 45) with
    | [single] => (number? single).bind fun n => if n = 0 then none else some (n, some n)
    | [low, high] => do
      if low.isEmpty && high.isEmpty then none
      let low ← if low.isEmpty then some 1 else number? low
      let high ← if high.isEmpty then some none else (number? high).map some
      return (low, high)
    | _ => none

/-- A position is in a list. -/
def inPositions (ranges : List (Nat × Option Nat)) (position : Nat) : Bool :=
  ranges.any fun (low, high) => low ≤ position && high.all (position ≤ ·)

/-- The members of a list whose positions, from 1, are wanted. -/
def selectAt {α : Type} (wanted : Nat → Bool) (items : List α) : List α :=
  (items.zipIdx 1).filterMap fun (item, i) => if wanted i then some item else none

/-- Writes a part of each line of its operands. -/
def cutWith (part : Bytes → Option Bytes) (operands : List Bytes) : Run Nat := do
  let (code, ()) ← Run.eachOperand "cut" operands (fun () _ fd =>
    Run.lines fd (fun () lines => do
      Run.printOr "cut" Run.writeFault 1 (unlines (lines.filterMap part))
      return (true, ())) ()) ()
  Run.finish "cut" 1 code

/-- Writes parts of each line. -/
def cut : Utility := fun arguments => do
  let valued := "bcdf"
  let plainArguments := arguments.filter fun a => a != ascii "--complement"
  match optionFault? "ns" valued plainArguments with
  | some fault => Run.usage "cut" fault 1
  | none =>
    let (options, operands) := splitValuedOptions (ascii valued) plainArguments
    let complement := arguments.contains (ascii "--complement")
    let wantedIn (ranges : List (Nat × Option Nat)) (i : Nat) : Bool :=
      inPositions ranges i != complement
    match options.lookup 102, options.lookup 99 |>.or (options.lookup 98) with
    | some fields, _ =>
      let delimiter := ((options.lookup 100).getD [9]).headD 0
      let separatedOnly := options.any (·.1 = 115)
      if ((options.lookup 100).getD [9]).length ≠ 1 then
        Run.usage "cut" (ascii "the delimiter must be a single character") 1
      else
        match positions? fields with
        | none => Run.usage "cut" (ascii "invalid field value " ++ quoted fields) 1
        | some ranges =>
          cutWith (fun line =>
            if !line.contains delimiter then (if separatedOnly then none else some line)
            else
              let kept := selectAt (wantedIn ranges) (line.splitOnP (· == delimiter))
              some (kept.intersperse [delimiter]).flatten) operands
    | none, some columns =>
      match positions? columns with
      | none => Run.usage "cut" (ascii "invalid byte/character position " ++ quoted columns) 1
      | some ranges => cutWith (fun line => some (selectAt (wantedIn ranges) line)) operands
    | none, none =>
      Run.usage "cut" (ascii "you must specify a list of bytes, characters, or fields") 1

end LineShell.Utility
