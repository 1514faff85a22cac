import LineShell.Text.Basic

/-!
# Decimal numerals

Reading is strict: ASCII digits only, an optional sign in front, at least one digit, and the value
within the range of the number's type. Writing is plain decimal.
-/

namespace LineShell.Text

/-- The value of a non-empty run of ASCII digits. -/
def digits? (s : Text) : Option Nat :=
  if s.isEmpty || !s.all Char.isDigit then none
  else some (s.foldl (fun value c => value * 10 + (c.toNat - '0'.toNat)) 0)

/-- The exclusive bound on counts: they fit 64 bits. -/
def countBound : Nat := Nat.pow 2 64

/-- A count: digits with an optional plus sign, below `countBound`. -/
def count? (s : Text) : Option Nat :=
  let body := match s with
    | '+' :: rest => rest
    | _ => s
  (digits? body).filter (· < countBound)

/-- A 32-bit signed number: digits with an optional sign. -/
def int32? (s : Text) : Option Int :=
  let value := match s with
    | '-' :: rest => (digits? rest).map fun n => -(n : Int)
    | '+' :: rest => (digits? rest).map fun n => (n : Int)
    | _ => (digits? s).map fun n => (n : Int)
  value.filter fun n => -2147483648 ≤ n && n < 2147483648

/-- A natural number in decimal. -/
def ofNat (n : Nat) : Text :=
  Nat.toDigits 10 n

/-- An integer in decimal. -/
def ofInt : Int → Text
  | .ofNat n => ofNat n
  | .negSucc n => '-' :: ofNat (n + 1)

/-- The text with blanks in front, so that it fills at least `width` columns. -/
def padLeft (width : Nat) (s : Text) : Text :=
  List.replicate (width - s.length) ' ' ++ s

end LineShell.Text
