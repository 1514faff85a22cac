import LineShell.Proofs.Evaluation.Preserve

/-!
# The statuses that a line can end with

A wait word is read bit by bit, and only one reading of it is a success.

* `Status.ofWord_cases`: the three readings of a wait word.
* `Status.isSuccess_iff_code_eq_zero`: success is what has code 0.
* `Status.isSuccess_ofWord_iff`: a wait word tells of success when its bits 0 to 6 and 8 to 15 are 0.
  Bit 7 and the high half do not matter.
* `Status.code_ofWord_le`: the code that a wait word stands for is at most 255.
* `Status.ofWord_exitWord`: a process that exits is reported with the low eight bits of its code.
* `Line.run_ends`: where every launch ends with a status of one kind, so does every line.
-/

namespace LineShell

namespace Status

/-! ## Wait words -/

/-- The three readings of a wait word: exited, stopped or continued, killed. -/
theorem ofWord_cases (word : Int32) :
    let n := word.toUInt32.toNat
    (n % 128 = 0 ∧ ofWord word = .exited (n / 256 % 256)) ∨
    (n % 128 = 127 ∧ ofWord word = .failure) ∨
    (n % 128 ≠ 0 ∧ n % 128 ≠ 127 ∧ ofWord word = .signaled (n % 128)) := by
  intro n
  by_cases hexited : n % 128 = 0
  · exact Or.inl ⟨hexited, if_pos hexited⟩
  · by_cases hstopped : n % 128 = 127
    · exact Or.inr (Or.inl ⟨hstopped, (if_neg hexited).trans (if_pos hstopped)⟩)
    · exact Or.inr (Or.inr ⟨hexited, hstopped, (if_neg hexited).trans (if_neg hstopped)⟩)

/-- Success is what has code 0: a signal makes the code at least 128. -/
theorem isSuccess_iff_code_eq_zero {status : Status} :
    status.isSuccess = true ↔ status.code = 0 := by
  unfold isSuccess success
  cases status with
  | exited n =>
    have hcode : (exited n).code = n := rfl
    simp [hcode]
  | signaled n =>
    have hcode : (signaled n).code = 128 + n := rfl
    simp [hcode]

/-- The two bytes of a mask, each against its part of a number. -/
theorem and_mask_eq_zero_iff (n : Nat) : n &&& 0xFF7F = 0 ↔ n % 128 = 0 ∧ n / 256 % 256 = 0 := by
  have hlow : (n &&& 0xFF7F) % 2 ^ 8 = n % 128 := by
    rw [Nat.and_mod_two_pow, show 0xFF7F % 2 ^ 8 = 2 ^ 7 - 1 from rfl,
      Nat.and_two_pow_sub_one_eq_mod]
    omega
  have hhigh : (n &&& 0xFF7F) / 2 ^ 8 = n / 256 % 256 := by
    rw [Nat.and_div_two_pow, show 0xFF7F / 2 ^ 8 = 2 ^ 8 - 1 from rfl,
      Nat.and_two_pow_sub_one_eq_mod]
  constructor
  · intro h
    rw [h] at hlow hhigh
    exact ⟨hlow.symm, hhigh.symm⟩
  · rintro ⟨h, h'⟩
    omega

/-- **A wait word tells of success when its bits 0 to 6 and 8 to 15 are 0.** -/
theorem isSuccess_ofWord_iff (word : Int32) :
    (ofWord word).isSuccess = true ↔ word &&& 0xFF7F = 0 := by
  have hmask : word &&& 0xFF7F = 0 ↔ word.toUInt32.toNat &&& 0xFF7F = 0 := by
    rw [← Int32.toBitVec_inj, Int32.toBitVec_and, ← BitVec.toNat_inj, BitVec.toNat_and]
    rfl
  rw [hmask, and_mask_eq_zero_iff, isSuccess_iff_code_eq_zero]
  obtain ⟨hexited, h⟩ | ⟨hstopped, h⟩ | ⟨hexited, -, h⟩ := ofWord_cases word
  · rw [h]
    simp [code, hexited]
  · rw [h]
    simp [code, failure, hstopped]
  · rw [h]
    simp [code, hexited]

/-- A process that exits is reported with the low eight bits of its code. -/
theorem ofWord_exitWord (code : Int) : ofWord (exitWord code) = .exited (code % 256).toNat := by
  have hword : (exitWord code).toUInt32.toNat = (code % 256).toNat * 256 := by
    have hlt := Int.emod_lt_of_pos code (by decide : (0 : Int) < 256)
    obtain ⟨n, hn⟩ := Int.eq_ofNat_of_zero_le (Int.emod_nonneg code (by decide : (256 : Int) ≠ 0))
    rw [hn] at hlt
    unfold exitWord
    rw [hn]
    change n * 256 % 2 ^ 32 = n * 256
    omega
  have hlt : (code % 256).toNat < 256 := by omega
  unfold ofWord
  simp only [hword]
  rw [if_pos (Nat.mod_eq_zero_of_dvd ⟨(code % 256).toNat * 2, by omega⟩),
    Nat.mul_div_cancel _ (by decide), Nat.mod_eq_of_lt hlt]

/-- The code that a wait word stands for is at most 255. -/
theorem code_ofWord_le (word : Int32) : (ofWord word).code ≤ 255 := by
  obtain ⟨-, h⟩ | ⟨-, h⟩ | ⟨-, -, h⟩ := ofWord_cases word
  · rw [h, code]
    omega
  · rw [h]
    decide
  · rw [h, code]
    omega

/-- A status that a wait word stands for. -/
def Reported (status : Status) : Prop := ∃ word, status = ofWord word

theorem reported_success : Reported success := ⟨0, rfl⟩

theorem reported_failure : Reported failure := ⟨exitWord 1, rfl⟩

theorem Reported.code_le {status : Status} (h : status.Reported) : status.code ≤ 255 := by
  obtain ⟨word, rfl⟩ := h
  exact code_ofWord_le word

end Status

/-! ## Lines -/

variable {W : Type u}

/-- Every launch ends with a status of one kind. -/
structure Launcher.Ends (launcher : Launcher W) (P : Status → Prop) : Prop where
  command : ∀ command w, P (launcher.command command w).1
  pipeline : ∀ stages w, P (launcher.pipeline stages w).1

/-- **A line ends as its launches do**, or with success where nothing is launched. -/
theorem Line.run_ends {launcher : Launcher W} {P : Status → Prop} (h : launcher.Ends P)
    (hsuccess : P .success) (line : Line) (w : W) : P (line.run launcher w).1 := by
  have hrelates : launcher.Relates Eq P launcher := {
    command := fun command v w hworld => by
      subst hworld
      exact ⟨rfl, h.command command v, rfl⟩
    pipeline := fun stages v w hworld => by
      subst hworld
      exact ⟨rfl, h.pipeline stages v, rfl⟩ }
  exact (Line.run_related hrelates hsuccess line rfl).kind

end LineShell
