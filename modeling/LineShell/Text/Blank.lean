import LineShell.Text.Basic

/-!
# White space

`isWhiteSpace` is the Unicode property `White_Space`. It decides which lines count as blank for the
history and what is trimmed from a startup line; it is wider than the blanks that separate words.
-/

namespace LineShell.Text

/-- The Unicode property `White_Space`. -/
def isWhiteSpace (c : Char) : Bool :=
  let n := c.toNat
  (0x09 ≤ n && n ≤ 0x0D) || n == 0x20 || n == 0x85 || n == 0xA0 || n == 0x1680 ||
    (0x2000 ≤ n && n ≤ 0x200A) || n == 0x2028 || n == 0x2029 || n == 0x202F || n == 0x205F ||
    n == 0x3000

/-- The text without the white space at its two ends. -/
def trim (s : Text) : Text :=
  ((s.dropWhile isWhiteSpace).reverse.dropWhile isWhiteSpace).reverse

/-- A blank text holds white space only. -/
def isBlank (s : Text) : Bool :=
  s.all isWhiteSpace

end LineShell.Text
