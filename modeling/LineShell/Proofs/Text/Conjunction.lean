import LineShell.Text.Pieces

/-!
# The leftmost `&&`

`cutAtAnd` finds an `&&` wherever there is one (`cutAtAnd_eq_none_iff`), and cuts at the leftmost:
nothing before the cut holds one (`of_cut`), and a text that is put together around an `&&` is cut there
if nothing before it is an `&` (`cutAtAnd_append`).
-/

namespace LineShell.Text

/-- A text holds the operator `&&`. -/
def HoldsAnd (s : Text) : Prop := ['&', '&'] <:+: s

theorem not_holdsAnd_nil : ¬ HoldsAnd [] := fun h => by simpa using h.length_le

/-- The operator at the front, or further on. -/
theorem holdsAnd_cons {c : Char} {s : Text} :
    HoldsAnd (c :: s) ↔ (c = '&' ∧ s.head? = some '&') ∨ HoldsAnd s := by
  unfold HoldsAnd
  rw [List.infix_cons_iff]
  cases s with
  | nil => simp
  | cons d rest => simp [List.cons_prefix_cons, eq_comm]

theorem HoldsAnd.of_stretch {s t : Text} (h : HoldsAnd s) (hst : s <:+: t) : HoldsAnd t :=
  List.IsInfix.trans h hst

/-- Around a character that is no `&` the operator stands on one side or on the other. -/
theorem holdsAnd_append_cons {s t : Text} {c : Char} (hc : c ≠ '&') :
    HoldsAnd (s ++ c :: t) ↔ HoldsAnd s ∨ HoldsAnd t := by
  induction s with
  | nil => simp [holdsAnd_cons, hc, not_holdsAnd_nil]
  | cons d rest ih =>
    have hhead : (rest ++ c :: t).head? = some '&' ↔ rest.head? = some '&' := by
      cases rest <;> simp [hc]
    rw [List.cons_append, holdsAnd_cons, holdsAnd_cons, ih, hhead, or_assoc]

/-- A cut is found exactly where there is an operator. -/
theorem cutAtAnd_eq_none_iff {s : Text} : cutAtAnd s = none ↔ ¬ HoldsAnd s := by
  induction s using cutAtAnd.induct with
  | case1 => simp [cutAtAnd, not_holdsAnd_nil]
  | case2 c => simp [cutAtAnd, holdsAnd_cons, not_holdsAnd_nil]
  | case3 c d rest hcd =>
    have hcd' : c = '&' ∧ d = '&' := by simpa using hcd
    simp [cutAtAnd, holdsAnd_cons, hcd']
  | case4 c d rest hcd ih =>
    have hcd' : ¬ (c = '&' ∧ d = '&') := by simpa using hcd
    rw [cutAtAnd, if_neg hcd, Option.map_eq_none_iff, ih, holdsAnd_cons (c := c)]
    simp [hcd']

instance : DecidablePred HoldsAnd := fun s =>
  decidable_of_iff (cutAtAnd s ≠ none) (by rw [ne_eq, cutAtAnd_eq_none_iff, Classical.not_not])

/-- A cut leaves what it was cut from, and no operator before it. -/
theorem of_cut {s left right : Text} (h : cutAtAnd s = some (left, right)) :
    s = left ++ '&' :: '&' :: right ∧ ¬ HoldsAnd left := by
  induction s using cutAtAnd.induct generalizing left with
  | case1 => simp [cutAtAnd] at h
  | case2 => simp [cutAtAnd] at h
  | case3 c d rest hcd =>
    simp only [cutAtAnd, hcd, if_true, Option.some.injEq, Prod.mk.injEq] at h
    obtain ⟨rfl, rfl⟩ := h
    have hcd' : c = '&' ∧ d = '&' := by simpa using hcd
    exact ⟨by rw [hcd'.1, hcd'.2]; rfl, not_holdsAnd_nil⟩
  | case4 c d rest hcd ih =>
    simp only [cutAtAnd, hcd, Bool.false_eq_true, if_false, Option.map_eq_some_iff] at h
    obtain ⟨⟨l, r⟩, hcut, he⟩ := h
    obtain ⟨rfl, rfl⟩ := Prod.mk.inj he
    obtain ⟨hrest, hl⟩ := ih hcut
    refine ⟨congrArg (c :: ·) hrest, ?_⟩
    rw [holdsAnd_cons]
    rintro (⟨hc, hhead⟩ | hholds)
    · -- the character after `c` is `d`, which stands in front of the part cut off
      have hd : d = '&' := by
        cases l with
        | nil => simp at hhead
        | cons e l =>
          obtain ⟨rfl, -⟩ := List.cons.inj hrest
          simpa using hhead
      exact hcd (by simp [hc, hd])
    · exact hl hholds

/-- A character that begins no operator stays in front of the cut. -/
theorem cutAtAnd_cons {c : Char} {s : Text} (h : ¬ (c = '&' ∧ s.head? = some '&')) :
    cutAtAnd (c :: s) = (cutAtAnd s).map fun cut => (c :: cut.1, cut.2) := by
  cases s with
  | nil => rfl
  | cons d rest =>
    rw [cutAtAnd, if_neg]
    simpa using h

/-- The cut is at the operator after a text that holds none and ends in another character. -/
theorem cutAtAnd_append {left : Text} (h : ¬ HoldsAnd left) {c : Char} (hc : c ≠ '&')
    (right : Text) :
    cutAtAnd (left ++ c :: '&' :: '&' :: right) = some (left ++ [c], right) := by
  induction left with
  | nil =>
    rw [List.nil_append, cutAtAnd_cons fun h => hc h.1]
    rfl
  | cons d rest ih =>
    rw [holdsAnd_cons, not_or] at h
    have hhead : ¬ (d = '&' ∧ (rest ++ c :: '&' :: '&' :: right).head? = some '&') := by
      cases rest with
      | nil => exact fun h' => hc (by simpa using h'.2)
      | cons e rest => exact h.1
    rw [List.cons_append, cutAtAnd_cons hhead, ih h.2]
    rfl

end LineShell.Text
