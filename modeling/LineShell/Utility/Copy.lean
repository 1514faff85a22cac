import LineShell.Utility.Basic

/-!
# Programs that pass their input on

`cat`, `tac` and `tee`. `cat` and `tee` write what they read block by block; `tac` reads everything
before it writes.
-/

namespace LineShell.Utility

/-- The node, the position and the direction of a descriptor that leads to a node. -/
def nodeOf (fd : Nat) : Run (Option (Nat × Nat × Direction)) := do
  match ← Run.handle? fd with
  | some (.file file) =>
    match (← get).opened[file]? with
    | some (.node id position direction) => return some (id, position, direction)
    | _ => return none
  | _ => return none

/-! ## cat -/

/-- The size of the blocks in which `cat` reads. -/
def copyBlock : Nat := 131072

/-- Copying a descriptor to standard output would never end, since each write adds to what is still to
be read. -/
def feedsItself (fd : Nat) : Run Bool := do
  match ← nodeOf fd, ← nodeOf 1 with
  | some (id, position, _), some (out, outPosition, direction) =>
    match (← Run.files).get? out with
    | some (.file _ content) =>
      return id = out && position < (if direction = .append then content.length else outPosition)
    | _ => return false
  | _, _ => return false

/-- A number at the right end of a column. -/
def rightAligned (width : Nat) (n : Nat) : Bytes :=
  let digits := decimal n
  List.replicate (width - digits.length) 32 ++ digits

/-- How `cat` shows its input. -/
structure Display where
  numbered : Bool
  numberedIfFull : Bool
  squeezed : Bool
  ends : Bool
  tabs : Bool
  controls : Bool

namespace Display

/-- The display that option letters ask for. -/
def ofOptions (options : List UInt8) : Display :=
  let has (letters : String) : Bool := (ascii letters).any options.contains
  ⟨has "n", has "b", has "s", has "AeE", has "AtT", has "Aetv"⟩

/-- How a byte other than a line end is shown. -/
def byte (d : Display) (b : UInt8) : Bytes :=
  let caret (b : UInt8) : Bytes :=
    if b < 32 then [94, b + 64] else if b = 127 then [94, 63] else [b]
  if b = 9 then (if d.tabs then caret b else [b])
  else if !d.controls then [b]
  else if b < 128 then caret b
  else ascii "M-" ++ caret (b - 128)

/-- Where showing has got to. -/
structure Place where
  /-- The number of the last numbered line. -/
  number : Nat
  /-- How many empty lines there were last. -/
  empties : Nat
  atLineStart : Bool

/-- Before the first byte. -/
def start : Place := ⟨0, 0, true⟩

/-- Shows bytes. -/
def shown (d : Display) (place : Place) (bytes : Bytes) : Bytes × Place :=
  let step (state : Bytes × Place) (b : UInt8) : Bytes × Place :=
    let (done, ⟨number, empties, atStart⟩) := state
    let isEmpty := atStart && b = 10
    if isEmpty && d.squeezed && 0 < empties then state
    else
      let counted := atStart && (if d.numberedIfFull then !isEmpty else d.numbered)
      let number := if counted then number + 1 else number
      let label := if counted then rightAligned 6 number ++ [9] else []
      let shown := if b = 10 then (if d.ends then [36, 10] else [10]) else d.byte b
      (shown.reverse ++ label.reverse ++ done, ⟨number, if isEmpty then empties + 1 else 0, b == 10⟩)
  let (done, place) := bytes.foldl step ([], place)
  (done.reverse, place)

end Display

/-- Writes its operands one after another. -/
def cat : Utility := fun arguments => do
  match optionFault? "AbeEnstTuv" "" arguments with
  | some fault => Run.usage "cat" fault 1
  | none =>
    let (options, operands) := splitOptions arguments
    let display := Display.ofOptions options
    let plain := options.all (· = 117)
    let copy (place : Display.Place) (path : Bytes) (fd : Nat) :
        Run (Except Errno (Bool × Display.Place)) := do
      if ← feedsItself fd then
        Run.warn "cat" (path ++ ascii ": input file is output file")
        return .ok (false, place)
      else
        let result ← Run.blocks fd copyBlock (fun place block => do
          if plain then
            Run.writeOr "cat" block
            return (true, place)
          else
            let (shown, place) := display.shown place block
            Run.writeOr "cat" shown
            return (true, place)) place
        return result.map fun place => (true, place)
    let (code, good, _) ← Run.eachOperand "cat" operands (fun (good, place) path fd => do
      return (← copy place path fd).map fun (fine, place) => (good && fine, place))
      (true, Display.start)
    Run.finish "cat" 1 (if good then code else 1)

/-! ## tac -/

/-- Writes the lines of its operands, last one first. -/
def tac : Utility := fun operands => do
  let code ← (Run.operandsOr operands).foldlM (fun code path => do
    match ← Run.openOperand path with
    | .error e =>
      Run.warn "tac" (ascii "failed to open " ++ quoted path ++ ascii " for reading: " ++ errorText e)
      return 1
    | .ok fd =>
      let input ← Run.readAll fd
      Run.closeOperand path fd
      match input with
      | .error e =>
        let shown := if path = Run.standardInput then ascii "standard input" else path
        Run.warn "tac" (shown ++ ascii ": read error: " ++ errorText e)
        return 1
      | .ok bytes =>
        let (complete, rest) := Run.cutLines bytes
        Run.printOr "tac" Run.writeFault 1 (rest ++ unlines complete.reverse)
        return code) 0
  Run.finish "tac" 1 code

/-! ## tee -/

/-- Writes a block to each of some outputs, and leaves those that refuse it out. -/
def writeEach (block : Bytes) (outputs : List (Bytes × Nat)) : Run (List (Bytes × Nat)) :=
  outputs.filterM fun (name, fd) => do
    match ← Run.write fd block with
    | .ok () => return true
    | .error e =>
      Run.operandFault "tee" name e
      return false

/-- Writes standard input to standard output and to files, all of which are opened first. -/
def tee : Utility := fun arguments => do
  match optionFault? "aip" "" arguments with
  | some fault => Run.usage "tee" fault 1
  | none =>
    let (options, operands) := splitOptions arguments
    let direction := if options.contains 97 then Direction.append else .output
    let files ← operands.filterMapM fun path => do
      match ← Run.openFile direction path with
      | .ok fd => return some (path, fd)
      | .error e =>
        Run.operandFault "tee" path e
        return none
    let outputs := (quoted (ascii "standard output"), 1) :: files
    let result ← Run.blocks 0 Run.blockSize (fun outputs block => do
      let outputs ← writeEach block outputs
      return (!outputs.isEmpty, outputs)) outputs
    match result with
    | .error e => Run.fail "tee" (ascii "read error: " ++ errorText e) 1
    | .ok left => return if left.length = operands.length + 1 then 0 else 1

end LineShell.Utility
