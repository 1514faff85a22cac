import LineShell.Text.Basic

/-!
# Cutting a text into pieces

`pieces isSep s` are the maximal runs of characters of `s` that are no separators, left to right: a
run of separators counts as one, and none at the ends yields a piece. Two instances are used:

* `piecesAt d`, for one separator character (`|`, `;`);
* `words`, for ASCII blanks: space, tab, line feed, form feed and carriage return, and no other
  character (no vertical tab, no blank beyond ASCII).

`collect` keeps as many of the pieces as there is room for, and silently drops the rest. `cutAtAnd` is
the one cut that is not at a single character: at the leftmost `&&`.
-/

namespace LineShell.Text

/-- The maximal non-empty runs of characters that are no separators, left to right. -/
def pieces (isSep : Char → Bool) (s : Text) : List Text :=
  (s.splitOnP isSep).filter fun piece => !piece.isEmpty

/-- The pieces between occurrences of one character (`split_on` of the tokenizer). -/
def piecesAt (d : Char) (s : Text) : List Text :=
  pieces (· == d) s

/-- The blanks that separate the words of a command. -/
def isWordBlank (c : Char) : Bool :=
  c == ' ' || c == '\t' || c == '\n' || c == '\x0c' || c == '\r'

/-- The words of a text, in order (`split_words` of the tokenizer). -/
def words (s : Text) : List Text :=
  pieces isWordBlank s

/-- Keeps pieces one after another as long as there is room, and counts those for which there is none
(`collect_bounded` of the tokenizer). -/
def collect (limit : Nat) (pieces : List Text) : List Text × Nat :=
  pieces.foldl
    (fun (kept, dropped) piece =>
      if kept.length < limit then (kept ++ [piece], dropped) else (kept, dropped + 1))
    ([], 0)

/-- The text before and the text after the leftmost `&&`, if there is one. -/
def cutAtAnd : Text → Option (Text × Text)
  | [] => none
  | [_] => none
  | c :: d :: rest =>
    if c == '&' && d == '&' then some ([], rest)
    else (cutAtAnd (d :: rest)).map fun cut => (c :: cut.1, cut.2)

/-- The text after a `&&` is shorter by the operator and all that precedes it. -/
theorem cutAtAnd_length {s left right : Text} (h : cutAtAnd s = some (left, right)) :
    s.length = left.length + right.length + 2 := by
  induction s using cutAtAnd.induct generalizing left with
  | case1 => simp [cutAtAnd] at h
  | case2 => simp [cutAtAnd] at h
  | case3 c d rest hcd =>
    simp only [cutAtAnd, hcd, if_true, Option.some.injEq, Prod.mk.injEq] at h
    obtain ⟨rfl, rfl⟩ := h
    simp
  | case4 c d rest hcd ih =>
    simp only [cutAtAnd, hcd, Bool.false_eq_true, if_false, Option.map_eq_some_iff] at h
    obtain ⟨⟨l, r⟩, hc, he⟩ := h
    simp only [Prod.mk.injEq] at he
    obtain ⟨rfl, rfl⟩ := he
    have := ih hc
    simp only [List.length_cons] at this ⊢
    omega

/-- No part of a split is longer than the whole. -/
theorem length_le_of_mem_splitOnP {isSep : Char → Bool} {s piece : Text}
    (h : piece ∈ s.splitOnP isSep) : piece.length ≤ s.length := by
  induction s generalizing piece with
  | nil => simp_all
  | cons c rest ih =>
    rw [List.splitOnP_cons_eq_if_modifyHead] at h
    split at h
    · rcases List.mem_cons.1 h with rfl | h
      · simp
      · have := ih h
        simp only [List.length_cons]
        omega
    · cases hs : rest.splitOnP isSep with
      | nil => simp [hs] at h
      | cons first others =>
        rw [hs, List.modifyHead_cons] at h
        rcases List.mem_cons.1 h with rfl | h
        · have : first.length ≤ rest.length := ih (by simp [hs])
          simp only [List.length_cons]
          omega
        · have : piece.length ≤ rest.length := ih (by simp [hs, h])
          simp only [List.length_cons]
          omega

/-- No piece is longer than the whole. -/
theorem length_le_of_mem_pieces {isSep : Char → Bool} {s piece : Text}
    (h : piece ∈ pieces isSep s) : piece.length ≤ s.length :=
  length_le_of_mem_splitOnP (List.mem_filter.1 h).1

end LineShell.Text
