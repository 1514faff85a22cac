import LineShell.Text.Blank
import LineShell.Text.Numeral

/-!
# The history of a session

A history holds the first lines it is given that are not blank, as they are and in order, up to its
capacity; what comes after is not recorded. Its listing numbers the entries from 1.
-/

namespace LineShell

/-- The lines recorded so far, oldest first, and how many there may be. -/
structure History where
  entries : List Text
  capacity : Nat
  deriving DecidableEq, Repr

namespace History

/-- The capacity where nothing else is asked for. -/
def defaultCapacity : Nat := 100

/-- An empty history (`History::with_capacity`). -/
def empty (capacity : Nat) : History := ⟨[], capacity⟩

/-- A line is recorded when it is not blank and there is room for it. -/
def accepts (h : History) (line : Text) : Bool :=
  !Text.isBlank line && h.entries.length < h.capacity

/-- The history after a line was given to it (`History::push`). -/
def push (h : History) (line : Text) : History :=
  if h.accepts line then { h with entries := h.entries ++ [line] } else h

/-- The last `count` entries with their numbers, all of them by default. -/
def numbered (h : History) (count : Option Nat) : List (Text × Nat) :=
  let start := count.elim 0 (h.entries.length - ·)
  (h.entries.drop start).zipIdx (start + 1)

/-- The listed form of one entry, in the parts in which it is written: its number in at least five
columns, two blanks, the line, and a line end. -/
def listedParts (number : Nat) (line : Text) : List Text :=
  [Text.padLeft 5 (Text.ofNat number), [' ', ' '], line, ['\n']]

/-- The listing of the last `count` entries, in the parts in which it is written. -/
def listing (h : History) (count : Option Nat) : List Text :=
  (h.numbered count).flatMap fun (line, number) => listedParts number line

end History

end LineShell
