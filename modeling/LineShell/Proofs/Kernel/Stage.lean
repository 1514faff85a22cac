import LineShell.Proofs.Kernel.Machine
import LineShell.Proofs.Kernel.Table

/-!
# Descriptor tables around a stage

While a pipeline is forked, the interpreter's table is the one it began with, except that between two
stages it holds the read end of the last pipe, at a number that was free at the beginning. `Between`
says so, and everything about the wiring of the children and about the interpreter's own descriptors
follows from it.

* `PipeOpened`: what making a pipe does to a table.
* `Between.forStage` and `Between.forStage_last`: the table that a child gives to its command, which is
  `Staged`: descriptors 0 and 1 lead to the pipes on either side of the stage, and every other one to
  what it led to at the beginning.
* `Between.next` and `Between.done`: what the interpreter holds after a stage.

Descriptors 0, 1 and 2 are supposed to be open at the beginning, so that no pipe gets one of these
numbers: otherwise a child would find its input already where it has to go, and leave it to be closed
when the program starts.
-/

namespace LineShell

variable {σ : Type u}

/-! ## Making a pipe -/

/-- `u` is `t` with the two ends of a pipe, at numbers that were free. -/
structure PipeOpened (t : Table) (ends : Process.PipeEnds) (id : Nat) (u : Table) : Prop where
  readFree : t.get? ends.read = none
  writeFree : t.get? ends.write = none
  apart : ends.read ≠ ends.write
  readRoom : ends.read < t.capacity
  writeRoom : ends.write < t.capacity
  capacity : u.capacity = t.capacity
  get? : ∀ fd, u.get? fd =
    if fd = ends.write then some ⟨.pipe id .write, true⟩
    else if fd = ends.read then some ⟨.pipe id .read, true⟩
    else t.get? fd

/-- A pipe that could be made has two new ends, and nothing else of the process has changed. -/
theorem Process.openPipe_eq_ok {k : Kernel σ} {p p' : Process} {s s' : σ} {ends : PipeEnds}
    (h : p.openPipe k s = .ok (ends, p', s')) :
    ∃ id table, k.newPipe s = .ok (id, s') ∧ p' = { p with table } ∧
      PipeOpened p.table ends id table := by
  unfold openPipe at h
  cases hpipe : k.newPipe s with
  | error errno => rw [hpipe] at h; exact absurd h (by simp)
  | ok made =>
    obtain ⟨id, s₁⟩ := made
    rw [hpipe] at h
    simp only at h
    cases hread : p.table.insert ⟨.pipe id .read, true⟩ with
    | error errno => rw [hread] at h; exact absurd h (by simp)
    | ok inserted =>
      obtain ⟨read, t⟩ := inserted
      rw [hread] at h
      simp only at h
      cases hwrite : t.insert ⟨.pipe id .write, true⟩ with
      | error errno => rw [hwrite] at h; exact absurd h (by simp)
      | ok inserted =>
        obtain ⟨write, u⟩ := inserted
        rw [hwrite] at h
        simp only [Except.ok.injEq, Prod.mk.injEq] at h
        obtain ⟨rfl, rfl, rfl⟩ := h
        obtain ⟨rfl, hreadRoom, rfl⟩ := Table.insert_eq_ok.mp hread
        obtain ⟨rfl, hwriteRoom, rfl⟩ := Table.insert_eq_ok.mp hwrite
        have hfree := Table.get?_lowestFree (p.table.put p.table.lowestFree ⟨.pipe id .read, true⟩)
        rw [Table.get?_put] at hfree
        split at hfree
        · exact absurd hfree (by simp)
        · rename_i hne
          refine ⟨id, _, rfl, rfl, ⟨p.table.get?_lowestFree, hfree, Ne.symm hne, hreadRoom, hwriteRoom,
            rfl, ?_⟩⟩
          intro fd
          simp

/-- A number that is open is at neither end of a new pipe. -/
theorem PipeOpened.ne_of_open {t u : Table} {ends : Process.PipeEnds} {id fd : Nat}
    (h : PipeOpened t ends id u) (hopen : t.get? fd ≠ none) : fd ≠ ends.read ∧ fd ≠ ends.write :=
  ⟨fun e => hopen (e ▸ h.readFree), fun e => hopen (e ▸ h.writeFree)⟩

/-- A number that is open leads to the same with a pipe made. -/
theorem PipeOpened.get?_of_open {t u : Table} {ends : Process.PipeEnds} {id fd : Nat}
    (h : PipeOpened t ends id u) (hopen : t.get? fd ≠ none) : u.get? fd = t.get? fd := by
  obtain ⟨hr, hw⟩ := h.ne_of_open hopen
  rw [h.get?, if_neg hw, if_neg hr]

/-! ## Between two stages -/

/-- The interpreter's table before a stage that reads from `input`. `base` is its table at the
beginning, and `source` the pipe whose read end is at `input`, if it is a pipe's. -/
inductive Between (base : Table) : Nat → Option Nat → Table → Prop where
  | first {t : Table} (same : t.Same base) : Between base 0 none t
  | later {t : Table} {input id : Nat} (free : base.get? input = none) (room : input < base.capacity)
      (same : t.Same (base.put input ⟨.pipe id .read, true⟩)) : Between base input (some id) t

/-- The slots that the command of a stage finds, between the pipes `source` and `sink` if there are
such. -/
def stageSlot (base : Table) (source sink : Option Nat) (fd : Nat) : Option Slot :=
  if fd = 0 then source.elim (base.get? 0) fun id => some ⟨.pipe id .read, false⟩
  else if fd = 1 then sink.elim (base.get? 1) fun id => some ⟨.pipe id .write, false⟩
  else base.get? fd

/-- The table of a child when it begins on its command. -/
structure Staged (base : Table) (source sink : Option Nat) (t : Table) : Prop where
  capacity : t.capacity = base.capacity
  get? : ∀ fd, t.get? fd = stageSlot base source sink fd

section

variable {base t u : Table} {input id : Nat} {source : Option Nat} {ends : Process.PipeEnds}

theorem Between.capacity (h : Between base input source t) : t.capacity = base.capacity := by
  cases h with
  | first same => exact same.capacity
  | later free room same => exact same.capacity

/-- What was open at the beginning is open between two stages, and leads to the same. -/
theorem Between.get?_of_open (h : Between base input source t) {fd : Nat}
    (hopen : base.get? fd ≠ none) : t.get? fd = base.get? fd := by
  cases h with
  | first same => exact same.get? fd
  | later free room same =>
    have hne : fd ≠ input := fun e => hopen (e ▸ free)
    rw [same.get?, Table.get?_put, if_neg hne]

theorem Between.free_of_free (h : Between base input source t) {fd : Nat}
    (hfree : t.get? fd = none) : base.get? fd = none := by
  cases hb : base.get? fd with
  | none => rfl
  | some slot =>
    have hopen : base.get? fd ≠ none := by rw [hb]; simp
    rw [h.get?_of_open hopen, hb] at hfree
    exact absurd hfree (by simp)

/-- The number before a stage is 0, or leads to the read end of the pipe before it. -/
theorem Between.input_cases (h : Between base input source t) (hopen : base.StandardOpen) :
    (input = 0 ∧ source = none) ∨
      (2 < input ∧ input < t.capacity ∧
        ∃ id, source = some id ∧ t.get? input = some ⟨.pipe id .read, true⟩) := by
  cases h with
  | first same => exact Or.inl ⟨rfl, rfl⟩
  | later free room same =>
    refine Or.inr ⟨hopen.lt_of_free free, same.capacity ▸ room, _, rfl, ?_⟩
    rw [same.get?, Table.get?_put, if_pos rfl]

/-- What the next stage reads from, if it is not number 0, was opened since the beginning. -/
theorem Between.own (h : Between base input source t) :
    input = 0 ∨ t.get? input ≠ none ∧ base.get? input = none := by
  cases h with
  | first same => exact Or.inl rfl
  | later free room same =>
    refine Or.inr ⟨?_, free⟩
    rw [same.get?, Table.get?_put, if_pos rfl]
    simp

/-- Apart from the read end of the last pipe, the interpreter has what it had at the beginning. -/
theorem Between.get?_of_ne (h : Between base input source t) {fd : Nat} (hfd : fd ≠ 0) :
    (if fd = input then none else t.get? fd) = base.get? fd := by
  cases h with
  | first same => rw [if_neg hfd, same.get?]
  | later free room same =>
    by_cases he : fd = input
    · rw [if_pos he, he, free]
    · rw [if_neg he, same.get?, Table.get?_put, if_neg he]

/-- A free number is not the one that the next stage reads from. -/
theorem Between.ne_input_of_free (h : Between base input source t) (hopen : base.StandardOpen)
    {fd : Nat} (hfd : t.get? fd = none) : fd ≠ input := by
  rintro rfl
  rcases h.input_cases hopen with ⟨rfl, -⟩ | ⟨-, -, _, -, hslot⟩
  · have h0 := hopen 0 (Nat.zero_le 2)
    rw [← h.get?_of_open h0] at h0
    exact h0 hfd
  · rw [hslot] at hfd
    exact absurd hfd (by simp)

/-! ## In the child -/

/-- What the child's input is after it was moved to number 0. -/
theorem move_input (hinput : (input = 0 ∧ source = none) ∨
      (2 < input ∧ input < t.capacity ∧
        ∃ id, source = some id ∧ t.get? input = some ⟨.pipe id .read, true⟩)) :
    ∃ v, t.move input 0 = .ok v ∧ v.capacity = t.capacity ∧
      ∀ fd, v.get? fd =
        if fd = 0 then source.elim (t.get? 0) fun id => some ⟨.pipe id .read, false⟩
        else if fd = input then none
        else t.get? fd := by
  rcases hinput with ⟨rfl, rfl⟩ | ⟨hlt, hroom, id, rfl, hget⟩
  · refine ⟨t, t.move_self 0, rfl, fun fd => ?_⟩
    by_cases h : fd = 0
    · simp [h]
    · simp [h]
  · have hne : input ≠ 0 := by omega
    refine ⟨_, (Table.move_eq_ok hne).mpr ⟨_, hget, by omega, rfl⟩, rfl, fun fd => ?_⟩
    by_cases h : fd = 0
    · subst h
      simp [Ne.symm hne]
    · simp [h]

/-- **The child of the last stage** reads from the last pipe, and writes where the interpreter
does. -/
theorem Between.forStage_last (h : Between base input source t) (hopen : base.StandardOpen) :
    ∃ v, t.forStage input none = .ok v ∧ Staged base source none v := by
  have h0 := h.get?_of_open (hopen 0 (by omega))
  obtain ⟨v, hmove, hcapacity, hget⟩ := move_input (h.input_cases hopen)
  refine ⟨v, ?_, hcapacity.trans h.capacity, fun fd => ?_⟩
  · unfold Table.forStage
    rw [hmove]
    rfl
  · rw [hget, h0]
    unfold stageSlot
    by_cases hfd : fd = 0
    · rw [if_pos hfd, if_pos hfd]
    · rw [if_neg hfd, if_neg hfd, h.get?_of_ne hfd]
      split
      · rename_i h1
        rw [h1]
        rfl
      · rfl

/-- What the child's output is after the read end of its own pipe was closed and the write end moved
to number 1. -/
theorem move_output {handle : Handle} {closeOnExec : Bool} (hne : ends.write ≠ 1)
    (hapart : ends.read ≠ ends.write) (hwrite : t.get? ends.write = some ⟨handle, closeOnExec⟩)
    (hroom : 1 < t.capacity) :
    ∃ v, (t.close ends.read).move ends.write 1 = .ok v ∧ v.capacity = t.capacity ∧
      ∀ fd, v.get? fd =
        if fd = ends.write then none
        else if fd = 1 then some ⟨handle, false⟩
        else if fd = ends.read then none
        else t.get? fd := by
  have hslot : (t.close ends.read).get? ends.write = some ⟨handle, closeOnExec⟩ := by
    rw [Table.get?_close, if_neg (Ne.symm hapart), hwrite]
  refine ⟨_, (Table.move_eq_ok hne).mpr ⟨_, hslot, hroom, rfl⟩, rfl, fun fd => ?_⟩
  rw [Table.get?_close, Table.get?_put, Table.get?_close, Slot.kept_mk]

/-- The two moves of a child put together, number by number. -/
theorem Between.stageSlot_eq (h : Between base input source t) (hopen : base.StandardOpen)
    (hpipe : PipeOpened t ends id u) (fd : Nat) :
    (if fd = ends.write then none
      else if fd = 1 then some ⟨.pipe id .write, false⟩
      else if fd = ends.read then none
      else if fd = 0 then source.elim (u.get? 0) fun id => some ⟨.pipe id .read, false⟩
      else if fd = input then none
      else u.get? fd) = stageSlot base source (some id) fd := by
  have hread := h.free_of_free hpipe.readFree
  have hwrite := h.free_of_free hpipe.writeFree
  have hr := hopen.lt_of_free hread
  have hw := hopen.lt_of_free hwrite
  unfold stageSlot
  by_cases hfw : fd = ends.write
  · rw [if_pos hfw, if_neg (by omega), if_neg (by omega), hfw, hwrite]
  · rw [if_neg hfw]
    by_cases h1 : fd = 1
    · rw [if_pos h1, if_neg (by omega), if_pos h1]
      rfl
    · rw [if_neg h1, if_neg h1]
      by_cases hfr : fd = ends.read
      · rw [if_pos hfr, if_neg (by omega), hfr, hread]
      · rw [if_neg hfr]
        by_cases h0 : fd = 0
        · rw [if_pos h0, if_pos h0, hpipe.get?, if_neg (by omega), if_neg (by omega),
            h.get?_of_open (hopen 0 (Nat.zero_le 2))]
        · rw [if_neg h0, if_neg h0, hpipe.get?, if_neg hfw, if_neg hfr, h.get?_of_ne h0]

/-- **The child of a stage before the last** reads from the last pipe, and writes to the next one, of
whose read end it holds nothing. -/
theorem Between.forStage (h : Between base input source t) (hopen : base.StandardOpen)
    (hpipe : PipeOpened t ends id u) :
    ∃ v, u.forStage input (some ends) = .ok v ∧ Staged base source (some id) v := by
  have hw := hopen.lt_of_free (h.free_of_free hpipe.writeFree)
  have hroom := hpipe.writeRoom
  rw [← hpipe.capacity] at hroom
  obtain ⟨v, hv, hvcap, hvget⟩ := move_input (t := u) ((h.input_cases hopen).imp_right
    fun ⟨hlt, hroom, id, hid, hslot⟩ => ⟨hlt, hpipe.capacity ▸ hroom, id, hid,
      by rw [hpipe.get?_of_open (by rw [hslot]; simp), hslot]⟩)
  have hwrite : v.get? ends.write = some ⟨.pipe id .write, true⟩ := by
    rw [hvget, if_neg (by omega), if_neg (h.ne_input_of_free hopen hpipe.writeFree), hpipe.get?,
      if_pos rfl]
  obtain ⟨w, hw, hwcap, hwget⟩ := move_output (by omega) hpipe.apart hwrite (by omega)
  refine ⟨w, ?_, ?_, fun fd => ?_⟩
  · unfold Table.forStage
    rw [hv]
    change ((v.close ends.read).move ends.write 1).mapError _ = _
    rw [hw]
    rfl
  · rw [hwcap, hvcap, hpipe.capacity, h.capacity]
  · rw [hwget, hvget]
    exact h.stageSlot_eq hopen hpipe fd

/-! ## In the interpreter -/

/-- What the interpreter holds once its child has taken over what the stage reads from. -/
theorem Between.get?_closeInput (h : Between base input source t) (hopen : base.StandardOpen)
    (hpipe : PipeOpened t ends id u) (fd : Nat) :
    (if input = 0 then u else u.close input).get? fd =
      if fd = ends.write then some ⟨.pipe id .write, true⟩
      else if fd = ends.read then some ⟨.pipe id .read, true⟩
      else base.get? fd := by
  cases h with
  | first same => rw [if_pos rfl, hpipe.get?, same.get?]
  | later free room same =>
    have hne := hopen.lt_of_free free
    have hslot : t.get? input ≠ none := by rw [same.get?, Table.get?_put, if_pos rfl]; simp
    obtain ⟨hr, hw⟩ := hpipe.ne_of_open hslot
    rw [if_neg (by omega), Table.get?_close, hpipe.get?, same.get?, Table.get?_put]
    by_cases he : fd = input
    · subst he
      rw [if_pos rfl, if_neg hw, if_neg hr, free]
    · rw [if_neg he, if_neg he]

/-- The write end of a new pipe is open until it is closed, and was not open at the beginning. -/
theorem Between.own_write (h : Between base input source t) (hopen : base.StandardOpen)
    (hpipe : PipeOpened t ends id u) :
    (if input = 0 then u else u.close input).get? ends.write ≠ none ∧ base.get? ends.write = none := by
  refine ⟨?_, h.free_of_free hpipe.writeFree⟩
  rw [h.get?_closeInput hopen hpipe, if_pos rfl]
  simp

/-- After a stage, the interpreter holds the read end of that stage's pipe. -/
theorem Between.next (h : Between base input source t) (hopen : base.StandardOpen)
    (hpipe : PipeOpened t ends id u) :
    Between base ends.read (some id)
      ((if input = 0 then u else u.close input).close ends.write) := by
  refine .later (h.free_of_free hpipe.readFree) (h.capacity ▸ hpipe.readRoom) ⟨?_, fun fd => ?_⟩
  · rw [Table.capacity_close, Table.capacity_put, ← h.capacity, ← hpipe.capacity]
    split <;> rfl
  · rw [Table.get?_close, Table.get?_put, h.get?_closeInput hopen hpipe]
    by_cases hw : fd = ends.write
    · subst hw
      rw [if_pos rfl, if_neg (Ne.symm hpipe.apart), h.free_of_free hpipe.writeFree]
    · rw [if_neg hw, if_neg hw]

theorem Between.passStage {m : Machine σ} (h : Between base input source t)
    (hopen : base.StandardOpen) (hpipe : PipeOpened t ends id m.process.table) (k : Kernel σ)
    (body : ChildBody σ) (stage : Command) (world : σ) :
    Between base ends.read (some id) (m.passStage k body stage input ends world).process.table := by
  rw [Machine.passStage_table]
  exact h.next hopen hpipe

/-- When the fork of a stage is refused and its pipe closed, the interpreter holds what it held at the
beginning. -/
theorem Between.dropped (h : Between base input source t) (hopen : base.StandardOpen)
    (hpipe : PipeOpened t ends id u) :
    (((if input = 0 then u else u.close input).close ends.read).close ends.write).Same base := by
  refine ⟨?_, fun fd => ?_⟩
  · rw [Table.capacity_close, Table.capacity_close, ← h.capacity, ← hpipe.capacity]
    split <;> rfl
  · rw [Table.get?_close, Table.get?_close, h.get?_closeInput hopen hpipe]
    by_cases hw : fd = ends.write
    · rw [if_pos hw, hw, h.free_of_free hpipe.writeFree]
    · rw [if_neg hw, if_neg hw]
      by_cases hr : fd = ends.read
      · rw [if_pos hr, hr, h.free_of_free hpipe.readFree]
      · rw [if_neg hr, if_neg hr]

/-- Both ends of a new pipe are open until they are closed, and were not open at the beginning. -/
theorem Between.own_read (h : Between base input source t) (hopen : base.StandardOpen)
    (hpipe : PipeOpened t ends id u) :
    (if input = 0 then u else u.close input).get? ends.read ≠ none ∧ base.get? ends.read = none := by
  refine ⟨?_, h.free_of_free hpipe.readFree⟩
  rw [h.get?_closeInput hopen hpipe, if_neg hpipe.apart, if_pos rfl]
  simp

/-- After the last stage, the interpreter holds what it held at the beginning. -/
theorem Between.done (h : Between base input source t) (hopen : base.StandardOpen) :
    (if input = 0 then t else t.close input).Same base := by
  cases h with
  | first same => rwa [if_pos rfl]
  | later free room same =>
    have hlt := hopen.lt_of_free free
    rw [if_neg (by omega)]
    refine ⟨same.capacity, fun fd => ?_⟩
    rw [Table.get?_close, same.get?, Table.get?_put]
    by_cases he : fd = input
    · rw [if_pos he, he, free]
    · rw [if_neg he, if_neg he]

end

end LineShell
