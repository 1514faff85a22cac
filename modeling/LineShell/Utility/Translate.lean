import LineShell.Utility.Count
import LineShell.Utility.Escape

/-!
# Translating bytes

`tr` replaces, deletes and squeezes bytes of standard input, block by block. Its sets are made of single
bytes, escapes, ranges, repeats such as `[x*3]` and named classes such as `[:digit:]`.
-/

namespace LineShell.Utility

/-- All bytes, in order. -/
def allBytes : Bytes := (List.range 256).map Nat.toUInt8

/-- The bytes between two, ends included. -/
def byteRange (low high : UInt8) : Bytes :=
  allBytes.filter fun b => low ≤ b && b ≤ high

/-- The bytes of a named class. -/
def byteClass? (name : Bytes) : Option Bytes :=
  let lower (b : UInt8) : Bool := 97 ≤ b && b ≤ 122
  let upper (b : UInt8) : Bool := 65 ≤ b && b ≤ 90
  let digit (b : UInt8) : Bool := 48 ≤ b && b ≤ 57
  let alnum (b : UInt8) : Bool := lower b || upper b || digit b
  let hex (b : UInt8) : Bool := digit b || 65 ≤ b && b ≤ 70 || 97 ≤ b && b ≤ 102
  let classes : List (String × (UInt8 → Bool)) :=
    [("lower", lower), ("upper", upper), ("digit", digit), ("alnum", alnum),
      ("alpha", fun b => lower b || upper b), ("space", isSpace), ("xdigit", hex),
      ("blank", fun b => b = 32 || b = 9), ("cntrl", fun b => b < 32 || b = 127),
      ("print", fun b => 32 ≤ b && b < 127), ("graph", fun b => 32 < b && b < 127),
      ("punct", fun b => 32 < b && b < 127 && !alnum b)]
  (classes.find? fun entry => ascii entry.1 == name).map fun entry => allBytes.filter entry.2

/-- The members of a set, in order. A repeat without a count fills the set up to `size`. -/
def byteSet (size : Nat) : Nat → Bytes → Bytes
  | 0, _ => []
  | _, [] => []
  | fuel + 1, 91 :: 58 :: rest =>
    let name := rest.takeWhile (· != 58)
    match byteClass? name, rest.drop name.length with
    | some members, 58 :: 93 :: rest => members ++ byteSet size fuel rest
    | _, _ => 91 :: byteSet size fuel (58 :: rest)
  | fuel + 1, 91 :: b :: 42 :: rest =>
    let digits := rest.takeWhile fun d => 48 ≤ d && d ≤ 57
    match rest.drop digits.length with
    | 93 :: rest =>
      let after := byteSet size fuel rest
      let count := match number? digits with
        | none => size - after.length
        | some 0 => size - after.length
        | some n => if digits.head? = some 48 then (leadingDigits 8 22 digits).1 else n
      List.replicate count b ++ after
    | _ => 91 :: byteSet size fuel (b :: 42 :: rest)
  | fuel + 1, 92 :: after =>
    match escape false false after with
    | .bytes [low] (45 :: high :: rest) => byteRange low high ++ byteSet size fuel rest
    | .bytes value rest => value ++ byteSet size fuel rest
    | .stop => 99 :: byteSet size fuel (after.drop 1)
  | fuel + 1, low :: 45 :: 92 :: after =>
    match escape false false after with
    | .bytes [high] rest => byteRange low high ++ byteSet size fuel rest
    | _ => low :: 45 :: byteSet size fuel (92 :: after)
  | fuel + 1, low :: 45 :: high :: rest => byteRange low high ++ byteSet size fuel rest
  | fuel + 1, b :: rest => b :: byteSet size fuel rest

/-- Leaves one of each run of equal bytes that are in a set, after a last byte written. -/
def squeeze (set : UInt8 → Bool) (last : Option UInt8) (bytes : Bytes) : Bytes × Option UInt8 :=
  let (done, last) := bytes.foldl (fun (done, last) b =>
    if set b && last = some b then (done, last) else (b :: done, some b)) (([] : Bytes), last)
  (done.reverse, last)

/-- What `tr` does to its input. -/
structure Translation where
  deletes : UInt8 → Bool
  replaces : UInt8 → UInt8
  squeezes : UInt8 → Bool

/-- Membership in a set, by a table. -/
def memberTable (set : Bytes) : UInt8 → Bool :=
  let table := set.foldl (fun table b => table.setIfInBounds b.toNat true) (Array.replicate 256 false)
  fun b => table.getD b.toNat false

/-- The replacement of the members of a set by those of another, whose last one counts for all that
have none. -/
def replacement (first second : Bytes) : UInt8 → UInt8 :=
  let table := first.zipIdx.foldl
    (fun table (b, i) => table.setIfInBounds b.toNat (second.getD i (second.getLastD b)))
    allBytes.toArray
  fun b => table.getD b.toNat b

/-- Replaces, deletes or squeezes bytes of standard input. -/
def tr : Utility := fun arguments => do
  match optionFault? "cCdst" "" arguments with
  | some fault => Run.usage "tr" fault 1
  | none =>
    let (options, operands) := splitOptions arguments
    let has (letters : String) : Bool := (ascii letters).any options.contains
    let setOf (size : Nat) (text : Bytes) : Bytes := byteSet size text.length text
    let first := setOf 0 (operands.headD [])
    let first := if has "cC" then allBytes.filter (!memberTable first ·) else first
    let first := if has "t" then first.take (setOf 0 (operands.getD 1 [])).length else first
    let second := setOf first.length (operands.getD 1 [])
    let nothing : UInt8 → Bool := fun _ => false
    let run (t : Translation) : Run Nat := do
      let result ← Run.blocks 0 Run.blockSize (fun last block => do
        let kept := (block.filter (!t.deletes ·)).map t.replaces
        let (bytes, last) := squeeze t.squeezes last kept
        Run.printOr "tr" Run.writeFault 1 bytes
        return (true, last)) none
      match result with
      | .error e => Run.fail "tr" (ascii "read error: " ++ errorText e) 1
      | .ok _ => Run.finish "tr" 1 0
    let deleting := has "d"
    let squeezing := has "s"
    let lacking (operand : Bytes) (reason : String) : Run Nat := do
      Run.warn "tr" (ascii "missing operand after " ++ quoted operand)
      Run.complain (ascii reason)
      Run.complain (ascii "Try 'tr --help' for more information.")
      return 1
    match operands with
    | [] => Run.usage "tr" (ascii "missing operand") 1
    | [only] =>
      if deleting && squeezing then
        lacking only "Two strings must be given when both deleting and squeezing repeats."
      else if deleting then run ⟨memberTable first, id, nothing⟩
      else if squeezing then run ⟨nothing, id, memberTable first⟩
      else lacking only "Two strings must be given when translating."
    | [_, text] =>
      if deleting && squeezing then run ⟨memberTable first, id, memberTable second⟩
      else if deleting then do
        Run.warn "tr" (ascii "extra operand " ++ quoted text)
        Run.complain (ascii "Only one string may be given when deleting without squeezing repeats.")
        Run.complain (ascii "Try 'tr --help' for more information.")
        return 1
      else if second.isEmpty && !first.isEmpty then
        Run.fail "tr" (ascii "when not truncating set1, string2 must be non-empty") 1
      else run ⟨nothing, replacement first second, if squeezing then memberTable second else nothing⟩
    | _ => Run.usage "tr" (ascii "extra operand " ++ quoted (operands.getD 2 [])) 1

end LineShell.Utility
