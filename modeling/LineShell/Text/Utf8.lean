import LineShell.Text.Basic

/-!
# UTF-8

`encode` writes a text as bytes. Reading goes one byte at a time through a small machine: `step`
gives the characters that a byte completes and the state after it. A malformed sequence is reported
once for each maximal prefix of a well-formed one, and the byte that broke it is looked at again as
the first byte of the next character.

* `decodeLossy` puts U+FFFD for each malformed sequence;
* `decode?` refuses a text that has one.
-/

namespace LineShell.Utf8

/-- The bytes of a text. -/
def encode (s : Text) : Bytes :=
  s.flatMap String.utf8EncodeChar

/-- Where a decoder stands between two bytes. -/
inductive State where
  /-- Between characters. -/
  | start
  /-- Inside a character: `more + 1` further bytes are owed, the next one between `low` and `high`,
  and the bits read so far are `bits`. -/
  | within (more : Nat) (low high : UInt8) (bits : Nat)
  deriving DecidableEq

/-- One decoded character, or `none` for a malformed sequence. -/
abbrev Item := Option Char

/-- What the first byte of a character leads to. -/
def lead (b : UInt8) : List Item × State :=
  if b < 0x80 then ([some (Char.ofNat b.toNat)], .start)
  else if b < 0xC2 then ([none], .start)
  else if b < 0xE0 then ([], .within 0 0x80 0xBF (b.toNat - 0xC0))
  else if b == 0xE0 then ([], .within 1 0xA0 0xBF 0)
  else if b == 0xED then ([], .within 1 0x80 0x9F 0xD)
  else if b < 0xF0 then ([], .within 1 0x80 0xBF (b.toNat - 0xE0))
  else if b == 0xF0 then ([], .within 2 0x90 0xBF 0)
  else if b < 0xF4 then ([], .within 2 0x80 0xBF (b.toNat - 0xF0))
  else if b == 0xF4 then ([], .within 2 0x80 0x8F 4)
  else ([none], .start)

/-- The items that a byte completes, and the state after it. -/
def step : State → UInt8 → List Item × State
  | .start, b => lead b
  | .within more low high bits, b =>
    if low ≤ b && b ≤ high then
      let bits := bits * 64 + (b.toNat - 0x80)
      match more with
      | 0 => ([some (Char.ofNat bits)], .start)
      | more + 1 => ([], .within more 0x80 0xBF bits)
    else
      let again := lead b
      (none :: again.1, again.2)

/-- What is left to report when the bytes end in a state. -/
def State.flush : State → List Item
  | .start => []
  | .within .. => [none]

/-- The items of a byte string, read from a state. -/
def items (st : State) : Bytes → List Item
  | [] => st.flush
  | b :: rest => (step st b).1 ++ items (step st b).2 rest

/-- The replacement character. -/
def replacement : Char := '\uFFFD'

/-- The text of a byte string, with one replacement character for each malformed sequence. -/
def decodeLossy (bytes : Bytes) : Text :=
  (items .start bytes).map fun item => item.getD replacement

/-- The text of a well-formed byte string. -/
def decode? (bytes : Bytes) : Option Text :=
  (items .start bytes).mapM id

end LineShell.Utf8
