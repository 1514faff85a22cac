import LineShell.Kernel.Table

/-!
# Descriptor tables through their view

`Table.get?` is the view of a table, and each operation has one law that says what the view is
afterwards: `get?_put`, `get?_close`, `move_eq_ok`, `get?_install_insert`. After these no proof looks at
the list of slots.

* `Table.Same` holds of two tables with one view and one bound. Their lists may still differ, since a
  number that was opened and closed again leaves an empty slot behind.
* `Table.lowestFree` is the lowest number that is not open: `get?_lowestFree` and
  `lowestFree_le_of_free`.
* `Table.StandardOpen`: numbers 0, 1 and 2 are open, so that a free number is above them.
-/

namespace LineShell

/-- The slot as it stands after being duplicated: it stays open when a program takes over. -/
def Slot.kept (slot : Slot) : Slot := { slot with closeOnExec := false }

@[simp] theorem Slot.kept_mk (handle : Handle) (closeOnExec : Bool) :
    Slot.kept ⟨handle, closeOnExec⟩ = ⟨handle, false⟩ := rfl

namespace Table

/-! ## One law for each operation -/

theorem join_place (slot : Option Slot) (slots : List (Option Slot)) (fd other : Nat) :
    ((place slot slots fd)[other]?).join = if other = fd then slot else (slots[other]?).join := by
  induction slots generalizing fd other with
  | nil =>
    induction fd generalizing other with
    | zero => cases other <;> simp [place]
    | succ fd ih =>
      cases other with
      | zero => simp [place]
      | succ other => simpa [place] using ih other
  | cons first rest ih =>
    cases fd with
    | zero => cases other <;> simp [place]
    | succ fd =>
      cases other with
      | zero => simp [place]
      | succ other => simpa [place] using ih fd other

@[simp] theorem get?_put (t : Table) (fd other : Nat) (slot : Slot) :
    (t.put fd slot).get? other = if other = fd then some slot else t.get? other :=
  join_place (some slot) t.slots fd other

@[simp] theorem capacity_put (t : Table) (fd : Nat) (slot : Slot) :
    (t.put fd slot).capacity = t.capacity := rfl

@[simp] theorem get?_close (t : Table) (fd other : Nat) :
    (t.close fd).get? other = if other = fd then none else t.get? other := by
  unfold close get?
  simp only [List.getElem?_set]
  by_cases h : fd = other
  · subst h
    simp only [if_true]
    split <;> rfl
  · rw [if_neg h, if_neg (Ne.symm h)]

@[simp] theorem capacity_close (t : Table) (fd : Nat) : (t.close fd).capacity = t.capacity := rfl

/-- Duplicating needs an open source and a target within the bound, and changes the target only. -/
theorem duplicate_eq_ok {t u : Table} {source target : Nat} :
    t.duplicate source target = .ok u ↔
      ∃ slot, t.get? source = some slot ∧ target < t.capacity ∧ u = t.put target slot.kept := by
  unfold duplicate
  cases h : t.get? source with
  | none => simp
  | some slot =>
    simp only
    split
    · rename_i hlt
      constructor
      · intro h
        exact ⟨slot, rfl, hlt, (Except.ok.inj h).symm⟩
      · rintro ⟨other, hslot, -, rfl⟩
        obtain rfl := Option.some.inj hslot
        rfl
    · rename_i hlt
      constructor
      · intro h
        exact absurd h (by simp)
      · rintro ⟨other, -, hlt', -⟩
        exact absurd hlt' hlt

/-- Moving to another number: the target has the source's slot, and the source is closed. -/
theorem move_eq_ok {t u : Table} {source target : Nat} (hne : source ≠ target) :
    t.move source target = .ok u ↔
      ∃ slot, t.get? source = some slot ∧ target < t.capacity ∧
        u = (t.put target slot.kept).close source := by
  unfold move
  rw [if_neg hne]
  cases hd : t.duplicate source target with
  | error errno =>
    constructor
    · intro h
      exact absurd h (by simp [Except.map])
    · rintro ⟨slot, hslot, hlt, -⟩
      have := duplicate_eq_ok.mpr ⟨slot, hslot, hlt, rfl⟩
      rw [hd] at this
      exact absurd this (by simp)
  | ok v =>
    obtain ⟨slot, hslot, hlt, rfl⟩ := duplicate_eq_ok.mp hd
    constructor
    · intro h
      exact ⟨slot, hslot, hlt, (Except.ok.inj h).symm⟩
    · rintro ⟨other, hother, -, rfl⟩
      rw [hslot] at hother
      obtain rfl := Option.some.inj hother
      rfl

@[simp] theorem move_self (t : Table) (fd : Nat) : t.move fd fd = .ok t := by
  unfold move
  rw [if_pos rfl]

/-! ## The lowest free number -/

theorem get?_lowestFree (t : Table) : t.get? t.lowestFree = none := by
  unfold get? lowestFree
  rcases Nat.lt_or_ge (t.slots.findIdx Option.isNone) t.slots.length with h | h
  · have := List.findIdx_getElem (p := Option.isNone) (w := h)
    rw [List.getElem?_eq_getElem h]
    simpa using this
  · rw [List.getElem?_eq_none h]
    rfl

theorem lowestFree_le_of_free {t : Table} {fd : Nat} (h : t.get? fd = none) : t.lowestFree ≤ fd := by
  unfold lowestFree
  rcases Nat.lt_or_ge fd (t.slots.findIdx Option.isNone) with hlt | hle
  · have hopen := List.not_of_lt_findIdx hlt
    have hlen : fd < t.slots.length := Nat.lt_of_lt_of_le hlt List.findIdx_le_length
    unfold get? at h
    rw [List.getElem?_eq_getElem hlen] at h
    simp only [Option.join_some] at h
    simp [h] at hopen
  · exact hle

/-- A new slot goes to the lowest free number, if that is within the bound. -/
theorem insert_eq_ok {t u : Table} {slot : Slot} {fd : Nat} :
    t.insert slot = .ok (fd, u) ↔
      fd = t.lowestFree ∧ t.lowestFree < t.capacity ∧ u = t.put t.lowestFree slot := by
  unfold insert
  split
  · rename_i hlt
    constructor
    · intro h
      obtain ⟨rfl, rfl⟩ := Prod.mk.inj (Except.ok.inj h)
      exact ⟨rfl, hlt, rfl⟩
    · rintro ⟨rfl, -, rfl⟩
      rfl
  · rename_i hlt
    constructor
    · intro h
      exact absurd h (by simp)
    · rintro ⟨-, hlt', -⟩
      exact absurd hlt' hlt

/-- **A slot inserted and then installed leaves no other trace.** The target alone has changed: it
leads where the slot leads, and stays open when a program takes over, whether or not the slot had
been put at the target's number at once. -/
theorem get?_install_insert {t u v : Table} {slot : Slot} {fresh target : Nat}
    (hinsert : t.insert slot = .ok (fresh, u)) (hinstall : u.install fresh target = (.ok (), v)) :
    v.capacity = t.capacity ∧
      ∀ fd, v.get? fd = if fd = target then some slot.kept else t.get? fd := by
  obtain ⟨rfl, -, rfl⟩ := insert_eq_ok.mp hinsert
  have hfree := t.get?_lowestFree
  unfold install at hinstall
  split at hinstall
  · rename_i heq
    subst heq
    simp only [keepOnExec, get?_put, if_true, Prod.mk.injEq, true_and] at hinstall
    subst hinstall
    refine ⟨rfl, fun fd => ?_⟩
    by_cases h : fd = t.lowestFree
    · simp [h, Slot.kept]
    · simp [h]
  · rename_i hne
    split at hinstall
    · rename_i w hdup
      obtain ⟨-, rfl⟩ := Prod.mk.inj hinstall
      obtain ⟨other, hother, -, rfl⟩ := duplicate_eq_ok.mp hdup
      obtain rfl : slot = other := by simpa using hother
      refine ⟨rfl, fun fd => ?_⟩
      by_cases h : fd = t.lowestFree
      · subst h
        simp [hne, hfree]
      · simp [h]
    · exact absurd hinstall (by simp)

/-- Whatever becomes of installing a slot that was inserted, no number but the target has changed. -/
theorem get?_install_insert_of_ne {t u : Table} {slot : Slot} {fresh target fd : Nat}
    (hinsert : t.insert slot = .ok (fresh, u)) (hne : fd ≠ target) :
    (u.install fresh target).2.get? fd = t.get? fd := by
  cases hresult : u.install fresh target with
  | mk result v =>
    cases result with
    | ok done => rw [(get?_install_insert hinsert hresult).2 fd, if_neg hne]
    | error errno =>
      obtain ⟨rfl, -, rfl⟩ := insert_eq_ok.mp hinsert
      have hfree := t.get?_lowestFree
      unfold install at hresult
      split at hresult
      · simp [keepOnExec] at hresult
      · split at hresult
        · exact absurd hresult (by simp)
        · obtain ⟨-, rfl⟩ := Prod.mk.inj hresult
          by_cases h : fd = t.lowestFree
          · subst h
            simp [hfree]
          · simp [h]

/-! ## Tables with one view -/

/-- Two tables have the same descriptors open, leading to the same, and the same bound. -/
structure Same (t u : Table) : Prop where
  capacity : t.capacity = u.capacity
  get? : ∀ fd, t.get? fd = u.get? fd

namespace Same

theorem refl (t : Table) : Same t t := ⟨rfl, fun _ => rfl⟩

theorem trans {t u v : Table} (h : Same t u) (h' : Same u v) : Same t v :=
  ⟨h.capacity.trans h'.capacity, fun fd => (h.get? fd).trans (h'.get? fd)⟩

end Same

/-- The standard streams of a table are open. -/
def StandardOpen (t : Table) : Prop := ∀ fd ≤ 2, t.get? fd ≠ none

instance (t : Table) : Decidable t.StandardOpen :=
  inferInstanceAs (Decidable (∀ fd ≤ 2, t.get? fd ≠ none))

/-- A free number is above those of the standard streams. -/
theorem StandardOpen.lt_of_free {t : Table} (h : t.StandardOpen) {fd : Nat} (hfree : t.get? fd = none) :
    2 < fd := by
  rcases Nat.lt_or_ge 2 fd with hlt | hle
  · exact hlt
  · exact absurd hfree (h fd hle)

theorem Same.standardOpen {t u : Table} (h : Same t u) (hopen : u.StandardOpen) : t.StandardOpen :=
  fun fd hfd => h.get? fd ▸ hopen fd hfd

end Table

end LineShell
