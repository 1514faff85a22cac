import LineShell.Utility.Basic

/-!
# Backslash escapes

`unescape` replaces the escapes `\a \b \e \f \n \r \t \v \\`, octal and hexadecimal ones, and stops at
`\c`. A backslash before anything else stands for itself. Octal escapes are written with a leading
zero that does not count among the three digits (`leadingZero`), or without. Hexadecimal escapes count
only with `hexadecimal`.
-/

namespace LineShell

/-- The value of a digit of a base up to 16. -/
def digitValue? (base : Nat) (b : UInt8) : Option Nat :=
  let n := b.toNat
  let value :=
    if 48 ≤ n && n ≤ 57 then n - 48
    else if 97 ≤ n && n ≤ 102 then n - 87
    else if 65 ≤ n && n ≤ 70 then n - 55
    else 16
  if value < base then some value else none

/-- The value of at most `limit` leading digits, how many there are, and what follows them. -/
def leadingDigits (base : Nat) : Nat → Bytes → Nat × Nat × Bytes :=
  let rec go (value count : Nat) : Nat → Bytes → Nat × Nat × Bytes
    | limit + 1, b :: rest =>
      match digitValue? base b with
      | some digit => go (value * base + digit) (count + 1) limit rest
      | none => (value, count, b :: rest)
    | _, rest => (value, count, rest)
  go 0 0

/-- The byte that a one-letter escape stands for. -/
def simpleEscape? (b : UInt8) : Option UInt8 :=
  match Char.ofNat b.toNat with
  | 'a' => some 7
  | 'b' => some 8
  | 'e' => some 27
  | 'f' => some 12
  | 'n' => some 10
  | 'r' => some 13
  | 't' => some 9
  | 'v' => some 11
  | '\\' => some 92
  | _ => none

/-- What one escape comes to. -/
inductive Escaped where
  /-- These bytes, and what follows the escape. -/
  | bytes (value : Bytes) (rest : Bytes)
  /-- All output ends here. -/
  | stop

/-- Reads an escape after its backslash. -/
def escape (leadingZero hexadecimal : Bool) (after : Bytes) : Escaped :=
  match after with
  | [] => .bytes [92] []
  | b :: rest =>
    match simpleEscape? b with
    | some value => .bytes [value] rest
    | none =>
      if b = 99 then .stop
      else if b = 120 && hexadecimal then
        match leadingDigits 16 2 rest with
        | (_, 0, _) => .bytes [92, 120] rest
        | (value, _, rest) => .bytes [value.toUInt8] rest
      else
        let digits := if leadingZero && b = 48 then rest else after
        match leadingDigits 8 3 digits with
        | (value, count, remaining) =>
          if count = 0 && !(leadingZero && b = 48) then .bytes [92, b] rest
          else .bytes [value.toUInt8] remaining

/-- Replaces escapes; the flag tells that the output was stopped. -/
def unescape (leadingZero hexadecimal : Bool) (bytes : Bytes) : Bytes × Bool :=
  let rec go : Nat → Bytes → Bytes → Bytes × Bool
    | fuel + 1, 92 :: after, done =>
      match escape leadingZero hexadecimal after with
      | .bytes value rest => go fuel rest (value.reverse ++ done)
      | .stop => (done.reverse, true)
    | fuel + 1, b :: rest, done => go fuel rest (b :: done)
    | _, _, done => (done.reverse, false)
  go bytes.length bytes []

end LineShell
