import LineShell.Proofs.Text.Conjunction
import LineShell.Proofs.Text.Pieces
import LineShell.Syntax.Line

/-!
# Segments of texts without semicolons

The parser cuts a text at semicolons, then a segment at its leftmost `&&`, and reads what follows the
cut as a sequence again. Below a semicolon there is no second one, so that sequence has at most one
segment, and the recursion walks along the `&&`s of the segment.

* `Text.operands` is the same cut made at once: the texts between the leftmost non-overlapping
  occurrences of `&&`. `operands_of_cut` and `operands_of_no_cut` relate it to `Text.cutAtAnd`.
* `Segment.parseAll?_of_not_mem`: a text without semicolons is read as its one segment.
* `Segment.parse?_of_cut` and `Segment.parse?_of_no_cut`: the recursion, without the well-founded
  machinery.
* `Segment.parse?_eq_none_iff`: only a text without `&&` and without words spells no segment.
-/

namespace LineShell

namespace Text

/-! ## The cut at `&&` -/

/-- The texts between the leftmost non-overlapping occurrences of `&&`, left to right. -/
def operands : Text → List Text
  | [] => [[]]
  | [c] => [[c]]
  | c :: d :: rest =>
    if c = '&' ∧ d = '&' then [] :: operands rest
    else (operands (d :: rest)).modifyHead (c :: ·)

/-- The text after the leftmost `&&` has the same operands but the first. -/
theorem operands_of_cut {s left right : Text} (h : cutAtAnd s = some (left, right)) :
    operands s = left :: operands right := by
  induction s using cutAtAnd.induct generalizing left with
  | case1 => simp [cutAtAnd] at h
  | case2 => simp [cutAtAnd] at h
  | case3 c d rest hcd =>
    simp only [cutAtAnd, hcd, if_true, Option.some.injEq, Prod.mk.injEq] at h
    obtain ⟨rfl, rfl⟩ := h
    have : c = '&' ∧ d = '&' := by simpa using hcd
    rw [operands, if_pos this]
  | case4 c d rest hcd ih =>
    simp only [cutAtAnd, hcd, Bool.false_eq_true, if_false, Option.map_eq_some_iff] at h
    obtain ⟨⟨l, r⟩, hc, he⟩ := h
    obtain ⟨rfl, rfl⟩ := Prod.mk.inj he
    have : ¬ (c = '&' ∧ d = '&') := by simpa using hcd
    rw [operands, if_neg this, ih hc, List.modifyHead_cons]

/-- A text without `&&` is its own only operand. -/
theorem operands_of_no_cut {s : Text} (h : cutAtAnd s = none) : operands s = [s] := by
  induction s using cutAtAnd.induct with
  | case1 => rfl
  | case2 => rfl
  | case3 c d rest hcd => simp [cutAtAnd, hcd] at h
  | case4 c d rest hcd ih =>
    simp only [cutAtAnd, hcd, Bool.false_eq_true, if_false, Option.map_eq_none_iff] at h
    have : ¬ (c = '&' ∧ d = '&') := by simpa using hcd
    rw [operands, if_neg this, ih h, List.modifyHead_cons]

theorem operands_ne_nil (s : Text) : operands s ≠ [] := by
  cases h : cutAtAnd s with
  | none => rw [operands_of_no_cut h]; exact List.cons_ne_nil _ _
  | some cut => rw [operands_of_cut h]; exact List.cons_ne_nil _ _

/-- Nothing of the text after a `&&` is new. -/
theorem mem_of_mem_cut_right {s left right : Text} (h : cutAtAnd s = some (left, right)) {c : Char}
    (hc : c ∈ right) : c ∈ s := by
  rw [(of_cut h).1]
  exact List.mem_append_right left (List.mem_cons_of_mem _ (List.mem_cons_of_mem _ hc))

end Text

/-! ## Commands -/

/-- A command is read from the first words of a text. -/
theorem Command.parse?_eq (s : Text) :
    parse? s = match (Text.words s).take maxWords with | [] => none | words => some ⟨words⟩ := by
  rw [← Text.collect_kept]
  rfl

/-- The stages of a pipeline are read from the first pieces between bars. -/
theorem Line.parse?_eq (s : Text) :
    parse? s =
      if '|' ∈ s then
        match ((Text.piecesAt '|' s).take maxStages).filterMap Command.parse? with
        | [] => none
        | stages => some (.pipeline stages)
      else (Segment.parseAll? s).map .sequence := by
  rw [← Text.collect_kept]
  rfl

theorem Command.parse?_eq_none_iff {s : Text} : Command.parse? s = none ↔ Text.words s = [] := by
  rw [Command.parse?_eq]
  cases h : Text.words s with
  | nil => simp
  | cons word rest => simp [Command.maxWords]

namespace Segment

/-! ## Reading a segment -/

/-- Reading a text piece by piece, and dropping the empty segments. -/
theorem parseAll?_eq (s : Text) :
    parseAll? s =
      let segments := (Text.piecesAt ';' s).filterMap parse?
      if segments.isEmpty then none else some segments := by
  rw [parseAll?]
  have : ((Text.piecesAt ';' s).attach.filterMap fun piece => parse? piece.1) =
      (Text.piecesAt ';' s).filterMap parse? := by
    change (Text.piecesAt ';' s).attach.filterMap (parse? ∘ Subtype.val) = _
    rw [← List.filterMap_map, List.attach_map_subtype_val]
  rw [this]
  cases (Text.piecesAt ';' s).filterMap parse? <;> rfl

theorem parse?_of_cut {s left right : Text} (h : Text.cutAtAnd s = some (left, right)) :
    parse? s = some (.conditional (Command.parse? left) (parseAll? right)) := by
  rw [parse?]
  split
  · rename_i l r hcut
    rw [h] at hcut
    obtain ⟨rfl, rfl⟩ := Prod.mk.inj (Option.some.inj hcut)
    rfl
  · rename_i hcut
    rw [h] at hcut
    exact absurd hcut (by simp)

theorem parse?_of_no_cut {s : Text} (h : Text.cutAtAnd s = none) :
    parse? s = (Command.parse? s).map .simple := by
  rw [parse?]
  split
  · rename_i l r hcut
    rw [h] at hcut
    exact absurd hcut (by simp)
  · rfl

/-- **Only a text without `&&` and without words spells no segment.** -/
theorem parse?_eq_none_iff {s : Text} :
    parse? s = none ↔ Text.cutAtAnd s = none ∧ Text.words s = [] := by
  cases h : Text.cutAtAnd s with
  | none => simp [parse?_of_no_cut h, Command.parse?_eq_none_iff]
  | some cut => simp [parse?_of_cut h]

/-- **A text without semicolons is read as its one segment.** -/
theorem parseAll?_of_not_mem {s : Text} (h : ';' ∉ s) :
    parseAll? s = (parse? s).map fun segment => [segment] := by
  rw [parseAll?_eq]
  by_cases hs : s = []
  · subst hs
    have : parse? [] = none := parse?_eq_none_iff.mpr ⟨rfl, Text.words_nil⟩
    simp [this]
  · rw [Text.piecesAt_of_not_mem h hs]
    cases hp : parse? s <;> simp [hp]

end Segment

end LineShell
