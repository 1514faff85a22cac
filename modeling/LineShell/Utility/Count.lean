import LineShell.Utility.Copy

/-!
# Counting

`wc` counts the lines, words and bytes of its operands, and can tell the width of the longest line. Each
row is written as soon as it is printed. The columns are wide enough for the size of all files
together, and for seven digits if there is something else among the operands; a single number stands
alone.
-/

namespace LineShell.Utility

/-- A byte that separates words. -/
def isSpace (b : UInt8) : Bool :=
  b = 32 || (9 ≤ b && b ≤ 13)

/-- What is counted. -/
structure Counts where
  lines : Nat
  words : Nat
  bytes : Nat
  /-- The width of the longest line. -/
  longest : Nat

/-- The counts so far, with the state of counting. -/
structure Counting extends Counts where
  inWord : Bool
  /-- The width of the line at hand. -/
  width : Nat

namespace Counting

/-- Nothing counted yet. -/
def empty : Counting := ⟨⟨0, 0, 0, 0⟩, false, 0⟩

/-- Counts one byte. -/
def byte (c : Counting) (b : UInt8) : Counting :=
  let blank := isSpace b
  let width :=
    if b = 10 || b = 12 || b = 13 then 0
    else if b = 9 then c.width + (8 - c.width % 8)
    else if 32 ≤ b && b < 127 then c.width + 1
    else c.width
  { lines := if b = 10 then c.lines + 1 else c.lines
    words := if !blank && !c.inWord then c.words + 1 else c.words
    bytes := c.bytes + 1
    longest := max c.longest width
    inWord := !blank
    width }

end Counting

/-- The counts of two inputs together. -/
def Counts.add (a b : Counts) : Counts :=
  ⟨a.lines + b.lines, a.words + b.words, a.bytes + b.bytes, max a.longest b.longest⟩

/-- What an operand is, as far as the width of columns goes. -/
inductive OperandSize where
  | missing
  | file (size : Nat)
  /-- Something of which no size is known beforehand. -/
  | unknown

/-- What an operand is. -/
def operandSize (path : Bytes) : Run OperandSize := do
  let files ← Run.files
  let sizeOf (id : Nat) : OperandSize := match files.get? id with
    | some (.file _ content) => .file content.length
    | _ => .unknown
  if path = Run.standardInput then return (← nodeOf 0).elim .unknown fun node => sizeOf node.1
  else return (files.lookup path).toOption.elim .missing sizeOf

/-- The width of the columns. -/
def columnWidth (sizes : List OperandSize) (columns : Nat) : Nat :=
  if sizes.length = 1 && columns = 1 then 1
  else
    let total := (sizes.map fun | .file size => size | _ => 0).foldl (· + ·) 0
    let least := if sizes.any (· matches .unknown) then 7 else 1
    max least (decimal total).length

/-- Prints a row and writes it out at once. -/
def writeRow (bytes : Bytes) : Run Unit := do
  let _ ← Run.print bytes
  let _ ← Run.flush

/-- Counts the lines, words and bytes of its operands. -/
def wc : Utility := fun arguments => do
  match optionFault? "lwcmL" "" arguments with
  | some fault => Run.usage "wc" fault 1
  | none =>
    let (options, operands) := splitOptions arguments
    let wanted (letter : Char) (usual : Bool) : Bool :=
      options.contains letter.toNat.toUInt8 || options.isEmpty && usual
    let columns (c : Counts) : List Nat :=
      [(wanted 'l' true, c.lines), (wanted 'w' true, c.words), (wanted 'm' false, c.bytes),
        (wanted 'c' true, c.bytes), (wanted 'L' false, c.longest)].filterMap fun (shown, count) =>
          if shown then some count else none
    let paths := Run.operandsOr operands
    let width := columnWidth (← paths.mapM operandSize) (columns Counting.empty.toCounts).length
    let row (c : Counts) (name : Bytes) : Bytes :=
      ((columns c).map (rightAligned width)).intersperse [32] |>.flatten
        |> (· ++ (if name.isEmpty then [] else 32 :: name) ++ [10])
    let (code, total) ← paths.foldlM (fun (code, (total : Counts)) path => do
      match ← Run.openOperand path with
      | .error e =>
        Run.operandFault "wc" path e
        return (1, total)
      | .ok fd =>
        let shown := if path = Run.standardInput then quoted (ascii "standard input") else path
        let name := if operands.isEmpty then [] else path
        match ← Run.blocks fd (8 * Run.blockSize)
            (fun counting block => return (true, block.foldl Counting.byte counting)) .empty with
        | .error e =>
          Run.closeOperand path fd
          Run.operandFault "wc" shown e
          writeRow (row Counting.empty.toCounts name)
          return (1, total)
        | .ok counting =>
          Run.closeOperand path fd
          writeRow (row counting.toCounts name)
          return (code, total.add counting.toCounts)) (0, Counting.empty.toCounts)
    if 1 < paths.length then writeRow (row total (ascii "total"))
    Run.finish "wc" 1 code

end LineShell.Utility
