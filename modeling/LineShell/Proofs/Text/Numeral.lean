import LineShell.Text.Numeral

/-!
# Which texts are counts

* `Text.Denotes`: a text is a decimal numeral for a number that fits 64 bits. It says so without the
  reader.
* `Text.count?_eq_some_iff`: reading a count finds the number that the text denotes, and finds none where
  it denotes none.
* `Text.denotes_ofNat`: what is written for a number denotes it.
-/

namespace LineShell.Text

/-- The text is a decimal numeral of a 64-bit number: ASCII digits, at least one of them, and perhaps a
plus sign in front. -/
structure Denotes (s : Text) (n : Nat) : Prop where
  spelled : ∃ digits, (s = digits ∨ s = '+' :: digits) ∧ digits ≠ [] ∧
    (∀ c ∈ digits, c.isDigit = true) ∧ Nat.ofDigitChars 10 digits 0 = n
  fits : n < Nat.pow 2 64

/-- Reading digits gives their value in base ten. -/
theorem digits?_eq_some_iff {s : Text} {n : Nat} :
    digits? s = some n ↔
      s ≠ [] ∧ (∀ c ∈ s, c.isDigit = true) ∧ Nat.ofDigitChars 10 s 0 = n := by
  have hvalue : s.foldl (fun value c => value * 10 + (c.toNat - '0'.toNat)) 0 =
      Nat.ofDigitChars 10 s 0 := by
    rw [Nat.ofDigitChars_eq_foldl]
    congr 1
    funext value c
    rw [Nat.mul_comm]
  unfold digits?
  rw [hvalue]
  by_cases hs : s = []
  · simp [hs]
  · by_cases hdigits : ∀ c ∈ s, c.isDigit = true
    · simp [hs]
    · simp [hs, hdigits]

/-- A sign is no digit. -/
theorem digits?_plus (s : Text) : digits? ('+' :: s) = none := by
  cases h : digits? ('+' :: s) with
  | none => rfl
  | some n =>
    have hplus := (digits?_eq_some_iff.mp h).2.1 '+' List.mem_cons_self
    exact absurd hplus (by decide)

/-- **Reading a count finds what the text denotes.** -/
theorem count?_eq_some_iff {s : Text} {n : Nat} : count? s = some n ↔ Denotes s n := by
  have hbound : countBound = Nat.pow 2 64 := rfl
  unfold count?
  rw [Option.filter_eq_some_iff, decide_eq_true_eq, hbound]
  constructor
  · rintro ⟨hdigits, hfits⟩
    refine ⟨?_, hfits⟩
    split at hdigits
    · exact ⟨_, Or.inr rfl, digits?_eq_some_iff.mp hdigits⟩
    · exact ⟨_, Or.inl rfl, digits?_eq_some_iff.mp hdigits⟩
  · rintro ⟨⟨digits, hspelled, hdigits⟩, hfits⟩
    have hvalue : digits? digits = some n := digits?_eq_some_iff.mpr hdigits
    refine ⟨?_, hfits⟩
    rcases hspelled with rfl | rfl
    · split
      · -- digits alone do not begin with a sign
        rw [digits?_plus] at hvalue
        exact absurd hvalue (by simp)
      · exact hvalue
    · exact hvalue

theorem count?_eq_none_iff {s : Text} : count? s = none ↔ ∀ n, ¬ Denotes s n := by
  rw [Option.eq_none_iff_forall_ne_some]
  simp only [ne_eq, count?_eq_some_iff]

/-- A number in decimal denotes the number. -/
theorem denotes_ofNat {n : Nat} (h : n < Nat.pow 2 64) : Denotes (ofNat n) n where
  spelled := ⟨ofNat n, Or.inl rfl, Nat.toDigits_ne_nil,
    fun _ hc => Nat.isDigit_of_mem_toDigits (by decide) (by decide) hc, Nat.ofDigitChars_ten_toDigits⟩
  fits := h

end LineShell.Text
