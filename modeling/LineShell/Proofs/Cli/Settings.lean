import LineShell.Proofs.Attempt
import LineShell.Proofs.Cli.Arguments
import Mathlib.Data.List.Nodup

/-!
# Settings one after another

What becomes of a draft when settings are made in it.

* `Draft.set_eq_ok_iff`: a setting is made exactly if it was not made before and its value means something.
* `Draft.setAll_eq_ok_iff`: so are settings one after another, each of them once.
* `Draft.setAll_eq_error`: and if they are not, one was made twice or its value means nothing.
* `Draft.holds_foldl_put`, `Draft.has_foldl_put`: the draft then holds these settings and no others.
-/

namespace LineShell.Cli

/-- A setting together with its value; the value of a switch is not looked at. -/
abbrev Assignment := Setting × Text

/-- The value means something for the setting. -/
def Assignment.Right (a : Assignment) : Prop :=
  ∃ found, (declared a.1).kind.Means a.2 found

/-! ## One setting -/

/-- The draft with a setting made. -/
def Draft.put (d : Draft) (a : Assignment) : Draft :=
  match a.1 with
  | .command => { d with command := some a.2 }
  | .historySize => { d with historySize := Text.count? a.2 }
  | .rcfile => { d with rcfile := some a.2 }
  | .norc => { d with norc := true }
  | .script => { d with script := some a.2 }

/-- The draft has the setting with its value. -/
def Draft.Holds (d : Draft) (a : Assignment) : Prop :=
  match a.1 with
  | .command => d.command = some a.2
  | .historySize => d.historySize = Text.count? a.2
  | .rcfile => d.rcfile = some a.2
  | .norc => d.norc = true
  | .script => d.script = some a.2

theorem Draft.set_of_has {d : Draft} {setting : Setting} (h : d.has setting = true) (value : Text) :
    d.set setting value = .error .argumentConflict := by
  unfold Draft.set
  rw [if_pos h]

/-- **A setting that was not made before is made**, if its value means something; -/
theorem Draft.set_eq {d : Draft} {a : Assignment} (hnew : d.has a.1 = false) (hright : a.Right) :
    d.set a.1 a.2 = .ok (d.put a) := by
  obtain ⟨setting, value⟩ := a
  obtain ⟨found, hmeans⟩ := hright
  unfold Draft.set
  rw [if_neg (by simp [hnew])]
  cases setting with
  | command => rfl
  | norc => rfl
  | historySize =>
    obtain ⟨size, hsize⟩ : ∃ size : Nat, Text.Denotes value size := ⟨found, hmeans⟩
    simp only [size?, Draft.put, Text.count?_eq_some_iff.mpr hsize, Except.map]
  | rcfile =>
    obtain ⟨c, rest, rfl⟩ := List.exists_cons_of_ne_nil hmeans.1
    rfl
  | script =>
    obtain ⟨c, rest, rfl⟩ := List.exists_cons_of_ne_nil hmeans.1
    rfl

/-- and else it is refused. -/
theorem Draft.set_of_wrong {d : Draft} {a : Assignment} (hnew : d.has a.1 = false) (hwrong : ¬ a.Right) :
    d.set a.1 a.2 = .error (declared a.1).kind.fault := by
  obtain ⟨setting, value⟩ := a
  have hpath (h : ∀ found : Option Text, ¬ (value ≠ [] ∧ found = some value)) : value = [] :=
    Decidable.not_not.mp fun hne => h (some value) ⟨hne, rfl⟩
  unfold Draft.set
  rw [if_neg (by simp [hnew])]
  cases setting with
  | command => exact absurd ⟨some value, rfl⟩ hwrong
  | norc => exact absurd ⟨true, rfl⟩ hwrong
  | historySize =>
    have hcount : Text.count? value = none := Text.count?_eq_none_iff.mpr fun size hsize => hwrong ⟨size, hsize⟩
    simp only [size?, hcount]
    rfl
  | rcfile =>
    obtain rfl := hpath fun found hmeans => hwrong ⟨found, hmeans⟩
    rfl
  | script =>
    obtain rfl := hpath fun found hmeans => hwrong ⟨found, hmeans⟩
    rfl

/-- A setting is made exactly when it was not made before and its value means something. -/
theorem Draft.set_eq_ok_iff {d d' : Draft} {a : Assignment} :
    d.set a.1 a.2 = .ok d' ↔ d.has a.1 = false ∧ a.Right ∧ d' = d.put a := by
  constructor
  · intro h
    cases hmade : d.has a.1 with
    | true =>
      rw [Draft.set_of_has hmade] at h
      cases h
    | false =>
      by_cases hright : a.Right
      · rw [Draft.set_eq hmade hright] at h
        exact ⟨rfl, hright, (Except.ok.inj h).symm⟩
      · rw [Draft.set_of_wrong hmade hright] at h
        cases h
  · rintro ⟨hnew, hright, rfl⟩
    exact Draft.set_eq hnew hright

theorem Draft.has_put {a : Assignment} (h : a.Right) (d : Draft) : (d.put a).has a.1 = true := by
  obtain ⟨setting, value⟩ := a
  obtain ⟨found, hmeans⟩ := h
  cases setting with
  | historySize =>
    have hcount : Text.count? value = some found := Text.count?_eq_some_iff.mpr hmeans
    exact congrArg Option.isSome hcount
  | command => rfl
  | rcfile => rfl
  | norc => rfl
  | script => rfl

/-- Making a setting makes no other one. -/
theorem Draft.has_put_of_ne {a : Assignment} {setting : Setting} (h : setting ≠ a.1) (d : Draft) :
    (d.put a).has setting = d.has setting := by
  obtain ⟨made, value⟩ := a
  cases made <;> cases setting <;> first | rfl | exact absurd rfl h

theorem Draft.holds_put (d : Draft) (a : Assignment) : (d.put a).Holds a := by
  obtain ⟨setting, value⟩ := a
  cases setting <;> rfl

/-- Making a setting leaves the others as they are. -/
theorem Draft.Holds.put {d : Draft} {a b : Assignment} (h : d.Holds a) (hne : a.1 ≠ b.1) :
    (d.put b).Holds a := by
  obtain ⟨setting, value⟩ := a
  obtain ⟨made, other⟩ := b
  cases made <;> cases setting <;> first | exact h | exact absurd rfl hne

/-! ## Settings one after another -/

/-- Makes settings one after another. -/
def Draft.setAll (d : Draft) (assignments : List Assignment) : Except UsageError Draft :=
  assignments.foldlM (fun d a => d.set a.1 a.2) d

@[simp] theorem Draft.setAll_nil (d : Draft) : d.setAll [] = .ok d := rfl

@[simp] theorem Draft.setAll_cons (d : Draft) (a : Assignment) (rest : List Assignment) :
    d.setAll (a :: rest) = (d.set a.1 a.2).bind (·.setAll rest) := rfl

/-- Settings of which none is repeated and none was made before, with values that mean something. -/
structure Draft.Settable (d : Draft) (assignments : List Assignment) : Prop where
  once : (assignments.map Prod.fst).Nodup
  fresh : ∀ a ∈ assignments, d.has a.1 = false
  right : ∀ a ∈ assignments, a.Right

/-- **Settings are made one after another exactly if none is repeated** and their values mean something. -/
theorem Draft.setAll_eq_ok_iff {d d' : Draft} {assignments : List Assignment} :
    d.setAll assignments = .ok d' ↔ d.Settable assignments ∧ d' = assignments.foldl Draft.put d := by
  induction assignments generalizing d with
  | nil =>
    refine ⟨fun h => ⟨⟨.nil, by simp, by simp⟩, (Except.ok.inj h).symm⟩, ?_⟩
    rintro ⟨-, rfl⟩
    rfl
  | cons a rest ih =>
    rw [setAll_cons, bind_eq_ok]
    constructor
    · rintro ⟨d₁, hset, hrest⟩
      obtain ⟨hnew, hright, rfl⟩ := Draft.set_eq_ok_iff.mp hset
      obtain ⟨⟨honce, hfresh, hrights⟩, rfl⟩ := ih.mp hrest
      have hne : ∀ b ∈ rest, b.1 ≠ a.1 := by
        intro b hb heq
        have hmade := hfresh b hb
        rw [heq, Draft.has_put hright] at hmade
        cases hmade
      refine ⟨⟨?_, ?_, List.forall_mem_cons.mpr ⟨hright, hrights⟩⟩, rfl⟩
      · refine List.nodup_cons.mpr ⟨fun hmem => ?_, honce⟩
        obtain ⟨b, hb, heq⟩ := List.mem_map.mp hmem
        exact hne b hb heq
      · refine List.forall_mem_cons.mpr ⟨hnew, fun b hb => ?_⟩
        rw [← Draft.has_put_of_ne (hne b hb)]
        exact hfresh b hb
    · rintro ⟨⟨honce, hfresh, hright⟩, rfl⟩
      obtain ⟨hnot, honce⟩ := List.nodup_cons.mp honce
      obtain ⟨hnew, hfresh⟩ := List.forall_mem_cons.mp hfresh
      obtain ⟨hfirst, hright⟩ := List.forall_mem_cons.mp hright
      refine ⟨d.put a, Draft.set_eq hnew hfirst, ih.mpr ⟨⟨honce, fun b hb => ?_, hright⟩, rfl⟩⟩
      have hne : b.1 ≠ a.1 := fun heq => hnot (heq ▸ List.mem_map_of_mem hb)
      rw [Draft.has_put_of_ne hne]
      exact hfresh b hb

/-- **Settings that are not made are repeated, or their values mean nothing.** -/
theorem Draft.setAll_eq_error {d : Draft} {assignments : List Assignment} {e : UsageError}
    (h : d.setAll assignments = .error e) :
    e = .argumentConflict ∧
        (¬ (assignments.map Prod.fst).Nodup ∨ ∃ a ∈ assignments, d.has a.1 = true) ∨
      ∃ a ∈ assignments, ¬ a.Right ∧ e = (declared a.1).kind.fault := by
  induction assignments generalizing d with
  | nil => cases h
  | cons a rest ih =>
    rw [setAll_cons] at h
    cases hmade : d.has a.1 with
    | true =>
      rw [Draft.set_of_has hmade] at h
      exact .inl ⟨(Except.error.inj h).symm, .inr ⟨a, List.mem_cons_self, hmade⟩⟩
    | false =>
      by_cases hright : a.Right
      · rw [Draft.set_eq hmade hright] at h
        rcases ih h with ⟨rfl, hrepeated | ⟨b, hb, hhas⟩⟩ | ⟨b, hb, hwrong, rfl⟩
        · exact .inl ⟨rfl, .inl fun hnodup => hrepeated (List.nodup_cons.mp hnodup).2⟩
        · refine .inl ⟨rfl, ?_⟩
          by_cases heq : b.1 = a.1
          · exact .inl fun hnodup => (List.nodup_cons.mp hnodup).1 (heq ▸ List.mem_map_of_mem hb)
          · rw [Draft.has_put_of_ne heq] at hhas
            exact .inr ⟨b, List.mem_cons_of_mem a hb, hhas⟩
        · exact .inr ⟨b, List.mem_cons_of_mem a hb, hwrong, rfl⟩
      · rw [Draft.set_of_wrong hmade hright] at h
        exact .inr ⟨a, List.mem_cons_self, hright, (Except.error.inj h).symm⟩

/-- What is not set is as before. -/
theorem Draft.has_foldl_put {assignments : List Assignment} {setting : Setting}
    (h : setting ∉ assignments.map Prod.fst) (d : Draft) :
    (assignments.foldl Draft.put d).has setting = d.has setting := by
  induction assignments generalizing d with
  | nil => rfl
  | cons a rest ih =>
    obtain ⟨hne, hrest⟩ := List.ne_and_not_mem_of_not_mem_cons h
    rw [List.foldl_cons, ih hrest, Draft.has_put_of_ne hne]

theorem Draft.Holds.foldl_put {assignments : List Assignment} {a : Assignment} {d : Draft} (h : d.Holds a)
    (hnot : a.1 ∉ assignments.map Prod.fst) : (assignments.foldl Draft.put d).Holds a := by
  induction assignments generalizing d with
  | nil => exact h
  | cons b rest ih =>
    obtain ⟨hne, hrest⟩ := List.ne_and_not_mem_of_not_mem_cons hnot
    exact ih (h.put hne) hrest

/-- **Settings that were made are there.** -/
theorem Draft.holds_foldl_put {assignments : List Assignment} (honce : (assignments.map Prod.fst).Nodup)
    {a : Assignment} (ha : a ∈ assignments) (d : Draft) : (assignments.foldl Draft.put d).Holds a := by
  induction assignments generalizing d with
  | nil => exact absurd ha List.not_mem_nil
  | cons b rest ih =>
    obtain ⟨hnot, honce⟩ := List.nodup_cons.mp honce
    rcases List.mem_cons.mp ha with rfl | ha
    · exact (Draft.holds_put d a).foldl_put hnot
    · exact ih honce ha _

end LineShell.Cli
