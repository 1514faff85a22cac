import LineShell.Proofs.Kernel.Laws
import LineShell.Proofs.Kernel.Reap
import Mathlib.Data.PFun
import Mathlib.Data.Seq.Basic

/-!
# Waiting over outcomes that need not end

Nobody knows how often the interpreter has to wait, or whether it ever comes to an end. Here the outcomes of
waiting are any sequence, finite or not, and waiting for several children is a loop over it.

* `Wait`: the loop keeps the children that are pending in no order: the last of them takes the place of one
  that has been reaped. `Wait.run` takes one step after another, and has no result where it does not end.
* `Wait.run_ofList`: on finite outcomes the loop is `reap`.
* `Wait.mem_run_iff`: the loop looks at no outcome beyond those that it uses up.
* `Wait.run_skip`: an interrupt or the end of a child of no concern makes no difference to its result.
* `waiting_is_exact`: so it stops as early as it can, with what became of the children asked for.
-/

namespace LineShell

open Stream' (Seq)

/-! ## The loop -/

/-- A list without the element at a place, which the last one takes. -/
def swapRemove {α : Type u} (xs : List α) (i : Nat) : List α :=
  match xs.getLast? with
  | none => []
  | some last => (xs.set i last).dropLast

/-- What waiting for several children comes to: its result, and the outcomes left over. -/
abbrev Waited := Except Errno (List (Pid × Status)) × Seq WaitOutcome

/-- How far waiting for several children has come. -/
structure Wait where
  /-- The children still to be reaped, in no order. -/
  pending : List Pid
  /-- The children reaped so far, in order. -/
  reaped : List (Pid × Status)

namespace Wait

/-- Waiting for some children begins. -/
def start (pids : List Pid) : Wait := ⟨pids, []⟩

/-- What one outcome does: waiting is over with a result, or it goes on. -/
def turn (w : Wait) : WaitOutcome → Except Errno (List (Pid × Status)) ⊕ Wait
  | .failed errno =>
    if errno = .interrupted then .inr w
    else if errno = .noChild then .inl (.ok w.reaped)
    else .inl (.error errno)
  | .reaped pid word =>
    match w.pending.idxOf? pid with
    | some i => .inr ⟨swapRemove w.pending i, w.reaped ++ [(pid, .ofWord word)]⟩
    | none => .inr w

/-- The loop is left when no child is pending; otherwise it takes the next outcome, if one comes. -/
def step : Wait × Seq WaitOutcome →. Waited ⊕ (Wait × Seq WaitOutcome)
  | (w, outcomes) =>
    if w.pending = [] then Part.some (.inl (.ok w.reaped, outcomes))
    else
      match outcomes.destruct with
      | none => Part.none
      | some (outcome, rest) => Part.some ((w.turn outcome).map (·, rest) (·, rest))

/-- Waits as long as a child is pending. -/
def run (w : Wait) (outcomes : Seq WaitOutcome) : Part Waited :=
  PFun.fix step (w, outcomes)

end Wait

/-- Outcomes with others behind them. -/
def followedBy (used : List WaitOutcome) (rest : Seq WaitOutcome) : Seq WaitOutcome :=
  Seq.append (Seq.ofList used) rest

@[simp] theorem followedBy_nil (rest : Seq WaitOutcome) : followedBy [] rest = rest := by
  unfold followedBy
  rw [Seq.ofList_nil, Seq.nil_append]

@[simp] theorem followedBy_cons (outcome : WaitOutcome) (used : List WaitOutcome)
    (rest : Seq WaitOutcome) :
    followedBy (outcome :: used) rest = Seq.cons outcome (followedBy used rest) := by
  unfold followedBy
  rw [Seq.ofList_cons, Seq.cons_append]

theorem followedBy_append (first second : List WaitOutcome) (rest : Seq WaitOutcome) :
    followedBy (first ++ second) rest = followedBy first (followedBy second rest) := by
  unfold followedBy
  rw [Seq.ofList_append, Seq.append_assoc]

/-- An interrupt, or the end of a child that was not asked for. -/
def WaitOutcome.IsForeign (pids : List Pid) : WaitOutcome → Prop
  | .failed errno => errno = .interrupted
  | .reaped pid _ => pid ∉ pids

/-! ## What a turn does -/

/-- Without the element at a place there are the others, in whatever order. -/
theorem swapRemove_perm {α : Type u} (front : List α) (x : α) (back : List α) :
    (swapRemove (front ++ x :: back) front.length).Perm (front ++ back) := by
  unfold swapRemove
  rcases List.eq_nil_or_concat back with rfl | ⟨middle, last, rfl⟩
  · simp
  · have hlast : front ++ x :: middle.concat last = (front ++ x :: middle) ++ [last] := by simp
    have hplace : front.length < (front ++ x :: middle).length := by simp
    rw [hlast, List.getLast?_concat]
    simp only
    rw [List.set_append_left _ _ hplace, List.dropLast_concat, List.set_append_right _ _ (Nat.le_refl _),
      Nat.sub_self, List.set_cons_zero, List.concat_eq_append]
    exact (List.perm_append_singleton last middle).symm.append_left front

namespace Wait

variable {w : Wait}

theorem turn_interrupted (w : Wait) : w.turn (.failed .interrupted) = .inr w := by
  rw [turn, if_pos rfl]

theorem turn_of_not_mem {pid : Pid} (h : pid ∉ w.pending) (word : Int32) :
    w.turn (.reaped pid word) = .inr w := by
  simp only [turn, List.idxOf?_eq_none_iff.mpr h]

/-- A child that is pending is so once less, and comes last among those reaped. -/
theorem turn_of_mem {pid : Pid} (h : pid ∈ w.pending) (word : Int32) :
    ∃ pending, pending.Perm (w.pending.erase pid) ∧
      w.turn (.reaped pid word) = .inr ⟨pending, w.reaped ++ [(pid, .ofWord word)]⟩ := by
  obtain ⟨i, hi⟩ := Option.isSome_iff_exists.mp
    (Option.isSome_iff_ne_none.mpr (mt List.idxOf?_eq_none_iff.mp (not_not_intro h)))
  refine ⟨swapRemove w.pending i, ?_, by simp only [turn, hi]⟩
  obtain ⟨hlt, hget, -⟩ := List.idxOf?_eq_some_iff.mp hi
  have hcut : w.pending = w.pending.take i ++ pid :: w.pending.drop (i + 1) := by
    rw [← hget, ← List.drop_eq_getElem_cons hlt, List.take_append_drop]
  have hlength : (w.pending.take i).length = i := List.length_take_of_le (Nat.le_of_lt hlt)
  generalize w.pending.take i = front, w.pending.drop (i + 1) = back at hcut hlength
  rw [hcut, ← hlength]
  have hmiddle : ((front ++ pid :: back).erase pid).Perm ((pid :: (front ++ back)).erase pid) :=
    List.perm_middle.erase pid
  rw [List.erase_cons_head] at hmiddle
  exact (swapRemove_perm front pid back).trans hmiddle.symm

/-! ## What a step does -/

theorem step_done (h : w.pending = []) (outcomes : Seq WaitOutcome) :
    step (w, outcomes) = Part.some (.inl (.ok w.reaped, outcomes)) := by
  rw [step, if_pos h]

theorem step_nil (h : w.pending ≠ []) : step (w, Seq.nil) = Part.none := by
  rw [step, if_neg h, Seq.destruct_nil]

theorem step_cons (h : w.pending ≠ []) (outcome : WaitOutcome) (rest : Seq WaitOutcome) :
    step (w, Seq.cons outcome rest) = Part.some ((w.turn outcome).map (·, rest) (·, rest)) := by
  rw [step, if_neg h, Seq.destruct_cons]

/-- **What a step does**: the loop is left without a further outcome, or it takes one. -/
theorem mem_step_cases {outcomes : Seq WaitOutcome} {after : Waited ⊕ (Wait × Seq WaitOutcome)}
    (h : after ∈ step (w, outcomes)) :
    (w.pending = [] ∧ after = .inl (.ok w.reaped, outcomes)) ∨
      (w.pending ≠ [] ∧ ∃ outcome rest, outcomes = Seq.cons outcome rest ∧
        ((∃ result, w.turn outcome = .inl result ∧ after = .inl (result, rest)) ∨
          ∃ next, w.turn outcome = .inr next ∧ after = .inr (next, rest))) := by
  by_cases hdone : w.pending = []
  · rw [step_done hdone] at h
    exact .inl ⟨hdone, Part.mem_some_iff.mp h⟩
  · refine .inr ⟨hdone, ?_⟩
    cases outcomes using Stream'.Seq.recOn with
    | nil =>
      rw [step_nil hdone] at h
      exact absurd h (Part.notMem_none after)
    | cons outcome rest =>
      rw [step_cons hdone] at h
      refine ⟨outcome, rest, rfl, ?_⟩
      cases hturn : w.turn outcome with
      | inl result =>
        rw [hturn] at h
        exact .inl ⟨result, rfl, Part.mem_some_iff.mp h⟩
      | inr next =>
        rw [hturn] at h
        exact .inr ⟨next, rfl, Part.mem_some_iff.mp h⟩

theorem run_done (h : w.pending = []) (outcomes : Seq WaitOutcome) :
    w.run outcomes = Part.some (.ok w.reaped, outcomes) := by
  apply Part.eq_some_iff.mpr
  apply PFun.fix_stop
  rw [step_done h]
  exact Part.mem_some _

theorem run_nil (h : w.pending ≠ []) : w.run Seq.nil = Part.none := by
  apply Part.eq_none_iff.mpr
  intro ended hended
  have hdom := PFun.dom_of_mem_fix hended
  rw [step_nil h] at hdom
  exact hdom

theorem run_cons (h : w.pending ≠ []) (outcome : WaitOutcome) (rest : Seq WaitOutcome) :
    w.run (Seq.cons outcome rest) =
      match w.turn outcome with
      | .inl result => Part.some (result, rest)
      | .inr w => w.run rest := by
  have hstep := step_cons h outcome rest
  cases hturn : w.turn outcome with
  | inl result =>
    rw [hturn] at hstep
    exact Part.eq_some_iff.mpr (PFun.fix_stop (Part.eq_some_iff.mp hstep))
  | inr next =>
    rw [hturn] at hstep
    exact PFun.fix_fwd_eq (Part.eq_some_iff.mp hstep)

/-! ## The loop is `reap` -/

theorem run_ofList_of_done (h : w.pending = []) (outcomes : List WaitOutcome) :
    w.run (Seq.ofList outcomes) = (reap [] outcomes).map
      fun ended => (ended.1.map (w.reaped ++ ·), Seq.ofList ended.2) := by
  rw [run_done h, reap]
  simp [Except.map]

/-- **On finite outcomes the loop is `reap`**, in whatever order children are pending. -/
theorem run_ofList {pids : List Pid} (hperm : w.pending.Perm pids) (outcomes : List WaitOutcome) :
    w.run (Seq.ofList outcomes) = (reap pids outcomes).map
      fun ended => (ended.1.map (w.reaped ++ ·), Seq.ofList ended.2) := by
  induction outcomes generalizing w pids with
  | nil =>
    by_cases hnil : pids = []
    · subst hnil
      exact run_ofList_of_done (List.perm_nil.mp hperm) _
    · have hne : w.pending ≠ [] := fun h => hnil (List.nil_perm.mp (h ▸ hperm))
      obtain ⟨first, others, rfl⟩ := List.exists_cons_of_ne_nil hnil
      rw [Seq.ofList_nil, run_nil hne]
      rfl
  | cons outcome outcomes ih =>
    by_cases hnil : pids = []
    · subst hnil
      exact run_ofList_of_done (List.perm_nil.mp hperm) _
    · have hne : w.pending ≠ [] := fun h => hnil (List.nil_perm.mp (h ▸ hperm))
      rw [Seq.ofList_cons, run_cons hne]
      cases outcome with
      | failed errno =>
        by_cases hinterrupted : errno = .interrupted
        · subst hinterrupted
          rw [turn_interrupted, reap_interrupted pids outcomes hnil]
          exact ih hperm
        · rw [reap_failed hnil hinterrupted, turn, if_neg hinterrupted]
          by_cases hchild : errno = .noChild
          · rw [if_pos hchild, if_pos hchild]
            simp [Except.map]
          · rw [if_neg hchild, if_neg hchild]
            rfl
      | reaped pid word =>
        by_cases hpid : pid ∈ pids
        · obtain ⟨pending, hpending, hturn⟩ := turn_of_mem (hperm.mem_iff.mpr hpid) word
          rw [hturn, reap_reaped_of_mem hpid, Option.map_map]
          refine (ih (hpending.trans (hperm.erase pid))).trans ?_
          congr 2
          funext ended
          rcases ended with ⟨result, rest⟩
          cases result with
          | error errno => rfl
          | ok reaped => simp [Except.map]
        · rw [turn_of_not_mem (mt hperm.mem_iff.mp hpid), reap_reaped_of_not_mem hnil hpid]
          exact ih hperm

/-! ## Beginnings of a sequence -/

variable {outcomes rest : Seq WaitOutcome} {result : Except Errno (List (Pid × Status))}

/-- What comes behind the outcomes that are used up is left over. -/
theorem run_followedBy {used : List WaitOutcome} (h : w.run (Seq.ofList used) = Part.some (result, Seq.nil))
    (rest : Seq WaitOutcome) : w.run (followedBy used rest) = Part.some (result, rest) := by
  induction used generalizing w with
  | nil =>
    by_cases hdone : w.pending = []
    · rw [run_done hdone] at h ⊢
      obtain ⟨rfl, -⟩ := Prod.mk.inj (Part.some_injective h)
      rw [followedBy_nil]
    · rw [Seq.ofList_nil, run_nil hdone] at h
      exact absurd h (Part.none_ne_some _)
  | cons outcome used ih =>
    rw [Seq.ofList_cons] at h
    rw [followedBy_cons]
    by_cases hdone : w.pending = []
    · rw [run_done hdone] at h
      exact absurd (Prod.mk.inj (Part.some_injective h)).2 Seq.cons_ne_nil
    · rw [run_cons hdone] at h ⊢
      cases hturn : w.turn outcome with
      | inl verdict =>
        rw [hturn] at h
        obtain ⟨rfl, hnil⟩ := Prod.mk.inj (Part.some_injective h)
        obtain rfl : used = [] := Seq.ofList_injective (hnil.trans Seq.ofList_nil.symm)
        rw [followedBy_nil]
      | inr next =>
        rw [hturn] at h
        exact ih h

/-- A loop that ends has used up finitely many outcomes, and these alone would have ended it. The loop may
not end, so that the induction is on the steps that it takes. -/
theorem exists_used_of_run (h : (result, rest) ∈ w.run outcomes) :
    ∃ used, outcomes = followedBy used rest ∧ w.run (Seq.ofList used) = Part.some (result, Seq.nil) := by
  refine PFun.fixInduction' (C := fun (w, outcomes) => ∃ used, outcomes = followedBy used rest ∧
    w.run (Seq.ofList used) = Part.some (result, Seq.nil)) h ?_ ?_
  · rintro ⟨w, outcomes⟩ hlast
    rcases mem_step_cases hlast with
      ⟨hdone, heq⟩ | ⟨hdone, outcome, later, rfl, ⟨verdict, hturn, heq⟩ | ⟨next, hturn, heq⟩⟩
    · obtain ⟨rfl, rfl⟩ := Prod.mk.inj (Sum.inl.inj heq)
      exact ⟨[], (followedBy_nil _).symm, run_done hdone _⟩
    · obtain ⟨rfl, rfl⟩ := Prod.mk.inj (Sum.inl.inj heq)
      refine ⟨[outcome], by simp, ?_⟩
      rw [Seq.ofList_cons, run_cons hdone, hturn, Seq.ofList_nil]
    · exact absurd heq (by simp)
  · rintro ⟨w, outcomes⟩ ⟨next, later⟩ - hstep ⟨used, rfl, hrun⟩
    rcases mem_step_cases hstep with
      ⟨hdone, heq⟩ | ⟨hdone, outcome, rest', rfl, ⟨verdict, hturn, heq⟩ | ⟨next', hturn, heq⟩⟩
    · exact absurd heq (by simp)
    · exact absurd heq (by simp)
    · obtain ⟨rfl, rfl⟩ := Prod.mk.inj (Sum.inr.inj heq)
      refine ⟨outcome :: used, (followedBy_cons outcome used rest).symm, ?_⟩
      rw [Seq.ofList_cons, run_cons hdone, hturn]
      exact hrun

/-! ## Outcomes of no concern -/

section

variable {pids : List Pid} {outcome : WaitOutcome}

theorem turn_foreign (h : outcome.IsForeign pids) (hpending : w.pending ⊆ pids) :
    w.turn outcome = .inr w := by
  cases outcome with
  | failed errno =>
    obtain rfl : errno = .interrupted := h
    exact turn_interrupted w
  | reaped pid word => exact turn_of_not_mem (fun hmem => h (hpending hmem)) word

/-- No turn makes a child pending. -/
theorem pending_subset_of_turn {next : Wait} (h : w.turn outcome = .inr next) :
    next.pending ⊆ w.pending := by
  cases outcome with
  | failed errno =>
    rw [turn] at h
    split at h
    · rw [Sum.inr.inj h]
      exact List.Subset.refl _
    · split at h <;> exact absurd h (by simp)
  | reaped pid word =>
    by_cases hpid : pid ∈ w.pending
    · obtain ⟨pending, hperm, hturn⟩ := turn_of_mem hpid word
      obtain rfl := Sum.inr.inj (hturn.symm.trans h)
      exact List.Subset.trans hperm.subset List.erase_subset
    · rw [turn_of_not_mem hpid word] at h
      rw [Sum.inr.inj h]
      exact List.Subset.refl _

/-- **An interrupt or the end of a child of no concern makes no difference** to what waiting comes to,
wherever it arrives. The induction is on the outcomes before it. -/
theorem run_skip (h : outcome.IsForeign pids) (hpending : w.pending ⊆ pids) (before : List WaitOutcome)
    (after : Seq WaitOutcome) :
    (w.run (followedBy before (Seq.cons outcome after))).map Prod.fst =
      (w.run (followedBy before after)).map Prod.fst := by
  induction before generalizing w with
  | nil =>
    rw [followedBy_nil, followedBy_nil]
    by_cases hdone : w.pending = []
    · rw [run_done hdone, run_done hdone, Part.map_some, Part.map_some]
    · rw [run_cons hdone, turn_foreign h hpending]
  | cons first before ih =>
    rw [followedBy_cons, followedBy_cons]
    by_cases hdone : w.pending = []
    · rw [run_done hdone, run_done hdone, Part.map_some, Part.map_some]
    · rw [run_cons hdone, run_cons hdone]
      cases hturn : w.turn first with
      | inl result => simp only [Part.map_some]
      | inr next => exact ih (List.Subset.trans (pending_subset_of_turn hturn) hpending)

end

/-! ## Where the loop stops -/

section

variable {pids : List Pid}

theorem run_start_ofList (pids : List Pid) (outcomes : List WaitOutcome) :
    (start pids).run (Seq.ofList outcomes) =
      (reap pids outcomes).map fun ended => (ended.1, Seq.ofList ended.2) := by
  rw [run_ofList (w := start pids) (.refl pids)]
  congr 2
  funext ended
  rcases ended with ⟨result, rest⟩
  cases result <;> rfl

/-- No child asked for is reaped twice, however long waiting goes on. -/
def EverReapsOnce (pids : List Pid) (outcomes : Seq WaitOutcome) : Prop :=
  ∀ used rest, outcomes = followedBy used rest → ReapsOnce pids used

/-- The loop has used up exactly these outcomes where waiting stops after them. -/
theorem run_start_iff_stops {used : List WaitOutcome} (honce : ReapsOnce pids used) :
    (start pids).run (Seq.ofList used) = Part.some (result, Seq.nil) ↔ Stops pids used result := by
  rw [run_start_ofList, Part.eq_some_iff, Part.mem_coe, Option.mem_map]
  constructor
  · rintro ⟨⟨result', rest⟩, hreap, hended⟩
    obtain ⟨rfl, hnil⟩ := Prod.mk.inj hended
    obtain rfl : rest = [] := Seq.ofList_injective (hnil.trans Seq.ofList_nil.symm)
    obtain ⟨used', rfl, hstops⟩ := (reap_eq_some_iff honce).mp hreap
    rwa [List.append_nil]
  · intro hstops
    refine ⟨(result, []), ?_, by rw [Seq.ofList_nil]⟩
    exact (reap_eq_some_iff honce).mpr ⟨used, (List.append_nil used).symm, hstops⟩

theorem mem_run_iff (honce : EverReapsOnce pids outcomes) :
    (result, rest) ∈ (start pids).run outcomes ↔
      ∃ used, outcomes = followedBy used rest ∧ Stops pids used result := by
  constructor
  · intro h
    obtain ⟨used, hused, hrun⟩ := exists_used_of_run h
    exact ⟨used, hused, (run_start_iff_stops (honce used rest hused)).mp hrun⟩
  · rintro ⟨used, hused, hstops⟩
    rw [hused]
    apply Part.eq_some_iff.mp
    exact run_followedBy ((run_start_iff_stops (honce used rest hused)).mpr hstops) rest

theorem run_eq_none_iff (honce : EverReapsOnce pids outcomes) :
    (start pids).run outcomes = Part.none ↔
      ∀ used rest, outcomes = followedBy used rest → GoesOn pids used := by
  rw [Part.eq_none_iff]
  constructor
  · intro h used rest hused
    rcases stops_or_goesOn pids used with ⟨front, back, result, rfl, hstops⟩ | hgoes
    · rw [followedBy_append] at hused
      exact absurd ((mem_run_iff honce).mpr ⟨front, hused, hstops⟩) (h _)
    · exact hgoes
  · rintro h ⟨result, rest⟩ hrun
    obtain ⟨used, hused, hstops⟩ := (mem_run_iff honce).mp hrun
    have honce' := honce used rest hused
    have hreap := reap_of_stops hstops honce' []
    rw [List.append_nil, reap_of_goesOn (h used rest hused) honce'] at hreap
    exact absurd hreap (by simp)

end

end Wait

/-! ## Outcomes without an end -/

/-- Waiting that is interrupted again and again. -/
def interruptedForever : Seq WaitOutcome := Seq.ofStream (Stream'.const (.failed .interrupted))

theorem interruptedForever_eq : interruptedForever = Seq.cons (.failed .interrupted) interruptedForever := by
  unfold interruptedForever
  conv => lhs; rw [Stream'.const_eq, Seq.ofStream_cons]

/-- Nobody is reaped while waiting is interrupted, and nothing else happens. -/
theorem interruptedForever_begins {used : List WaitOutcome} {rest : Seq WaitOutcome}
    (h : interruptedForever = followedBy used rest) : OnlyInterrupted used ∧ reapedPids used = [] := by
  induction used with
  | nil => exact ⟨fun errno hmem => absurd hmem (by simp), rfl⟩
  | cons outcome used ih =>
    rw [interruptedForever_eq, followedBy_cons] at h
    obtain ⟨rfl, hrest⟩ := Seq.cons_eq_cons.mp h
    obtain ⟨hfail, hnone⟩ := ih hrest
    refine ⟨?_, hnone⟩
    intro errno hmem
    rcases List.mem_cons.mp hmem with heq | hmem
    · exact WaitOutcome.failed.inj heq
    · exact hfail errno hmem

/-- Only the outcomes before that matter to who is reaped. -/
theorem reapedPids_followedBy {before used : List WaitOutcome} {rest : Seq WaitOutcome}
    (h : followedBy before interruptedForever = followedBy used rest) :
    reapedPids used <+: reapedPids before := by
  induction before generalizing used with
  | nil =>
    rw [followedBy_nil] at h
    rw [(interruptedForever_begins h).2]
    exact List.nil_prefix
  | cons first before ih =>
    cases used with
    | nil => exact List.nil_prefix
    | cons outcome used =>
      rw [followedBy_cons, followedBy_cons] at h
      obtain ⟨rfl, hrest⟩ := Seq.cons_eq_cons.mp h
      cases first with
      | failed errno =>
        rw [reapedPids_failed, reapedPids_failed]
        exact ih hrest
      | reaped pid word => exact (List.prefix_cons_inj pid).mpr (ih hrest)

theorem ReapsOnce.interruptedForever {pids : List Pid} {before : List WaitOutcome}
    (h : ReapsOnce pids before) : Wait.EverReapsOnce pids (followedBy before interruptedForever) := by
  intro used rest hused pid hpid
  exact Nat.le_trans ((reapedPids_followedBy hused).sublist.count_le pid) (h pid hpid)

theorem goesOn_interruptedForever {pids : List Pid} (hne : pids ≠ []) {used : List WaitOutcome}
    {rest : Seq WaitOutcome} (h : interruptedForever = followedBy used rest) : GoesOn pids used := by
  obtain ⟨hfail, hnone⟩ := interruptedForever_begins h
  refine ⟨hfail, ?_⟩
  intro hall
  obtain ⟨first, others, rfl⟩ := List.exists_cons_of_ne_nil hne
  have hfirst := hall first
  rw [hnone, List.count_cons_self, List.count_nil] at hfirst
  exact absurd hfirst (Nat.not_succ_le_zero _)

/-! ## What waiting comes to -/

section

variable {pids : List Pid}

/-- The children that are reported are those asked for, in the order of their ends. -/
theorem map_fst_endsOf (pids : List Pid) (outcomes : List WaitOutcome) :
    (endsOf pids outcomes).map Prod.fst = (reapedPids outcomes).filter (· ∈ pids) := by
  induction outcomes with
  | nil => rfl
  | cons outcome rest ih =>
    cases outcome with
    | failed errno => exact ih
    | reaped pid word =>
      by_cases hpid : pid ∈ pids
      · rw [endsOf_reaped_of_mem hpid, List.map_cons, ih, reapedPids_reaped,
          List.filter_cons_of_pos (by simpa using hpid)]
      · rw [endsOf_reaped_of_not_mem hpid, ih, reapedPids_reaped,
          List.filter_cons_of_neg (by simpa using hpid)]

/-- **Each child that is reported was asked for, and is reported once.** -/
theorem endsOf_once {outcomes : List WaitOutcome} (honce : ReapsOnce pids outcomes) :
    ((endsOf pids outcomes).map Prod.fst).Nodup ∧ ∀ child ∈ endsOf pids outcomes, child.1 ∈ pids := by
  have hasked : ∀ pid ∈ (endsOf pids outcomes).map Prod.fst, pid ∈ pids := by
    intro pid hpid
    rw [map_fst_endsOf] at hpid
    simpa using (List.mem_filter.mp hpid).2
  refine ⟨List.nodup_iff_count.mpr ?_, fun child hchild => hasked _ (List.mem_map_of_mem hchild)⟩
  intro pid
  by_cases hpid : pid ∈ pids
  · rw [map_fst_endsOf, List.count_filter (by simpa using hpid)]
    exact honce pid hpid
  · rw [List.count_eq_zero.mpr (mt (hasked pid) hpid)]
    exact Nat.zero_le 1

theorem Stops.once {used : List WaitOutcome} {reaped : List (Pid × Status)}
    (h : Stops pids used (.ok reaped)) (honce : ReapsOnce pids used) :
    (reaped.map Prod.fst).Nodup ∧ ∀ child ∈ reaped, child.1 ∈ pids := by
  cases h with
  | all => exact endsOf_once honce
  | vanished => exact endsOf_once honce.of_append

/-- The interpreter waits over what is to come and, behind that, the news that no child is left; so it does
not wait for ever. -/
theorem Machine.waitAll_stops {σ : Type u} (k : Kernel σ) (m : Machine σ) (hne : pids ≠ [])
    (honce : ReapsOnce pids (m.await k).outcomes) :
    ∃ used rest, (m.await k).outcomes ++ [.failed .noChild] = used ++ rest ∧
      Stops pids used (m.waitAll k pids).1 ∧
      (m.waitAll k pids).2 = { m.await k with outcomes := rest.dropLast } := by
  rcases stops_or_goesOn pids ((m.await k).outcomes ++ [.failed .noChild]) with
    ⟨used, rest, result, hused, hstops⟩ | hgoes
  · have hall : ReapsOnce pids ((m.await k).outcomes ++ [.failed .noChild]) := by
      unfold ReapsOnce
      rwa [reapedPids_append, reapedPids_failed, reapedPids_nil, List.append_nil]
    have hreap := reap_of_stops hstops (hused ▸ hall).of_append rest
    have hwait : m.waitAll k pids = (result, { m.await k with outcomes := rest.dropLast }) := by
      obtain ⟨first, others, rfl⟩ := List.exists_cons_of_ne_nil hne
      exact waitAll_cons (hused ▸ hreap)
    rw [hwait]
    exact ⟨used, rest, hused, hstops, rfl⟩
  · exact absurd (hgoes.interrupted .noChild (by simp)) (by decide)

/-- What waiting for some children comes to over outcomes that may go on for ever. -/
structure WaitsFor (pids : List Pid) (outcomes : Seq WaitOutcome) (waited : Part Waited) : Prop where
  /-- It is over after the outcomes after which it stops, with what they bring, and leaves all others. -/
  stops : ∀ result rest, (result, rest) ∈ waited ↔
    ∃ used, outcomes = followedBy used rest ∧ Stops pids used result
  /-- It does not end if it goes on whatever has come so far. -/
  endless : waited = Part.none ↔ ∀ used rest, outcomes = followedBy used rest → GoesOn pids used
  /-- Each child that it reports was asked for, and is reported once. -/
  once : ∀ reaped rest, (.ok reaped, rest) ∈ waited →
    (reaped.map Prod.fst).Nodup ∧ ∀ child ∈ reaped, child.1 ∈ pids

/-- **Waiting for several children is exact, whatever waiting brings**, as long as no child asked for is
reaped twice. For no children there is no waiting at all. Otherwise it stops as soon as each has been reaped
as often as it was asked for, at the news that no child is left, or at any other failure that is not an
interrupt, and it uses up no further outcome. It reports what became of the children asked for, in the order
of their ends; interrupts and the ends of other children make no difference to that. On finite outcomes
this is `reap`, which is what the interpreter waits by. -/
theorem waiting_is_exact {σ : Type u} (k : Kernel σ) (pids : List Pid) :
    (∀ outcomes, Wait.EverReapsOnce pids outcomes →
      WaitsFor pids outcomes ((Wait.start pids).run outcomes)) ∧
    (∀ outcomes : List WaitOutcome, (Wait.start pids).run (Seq.ofList outcomes) =
      (reap pids outcomes).map fun ended => (ended.1, Seq.ofList ended.2)) ∧
    (∀ outcomes, (Wait.start []).run outcomes = Part.some (.ok [], outcomes)) ∧
    (∀ m : Machine σ, m.waitAll k [] = (.ok [], m)) ∧
    (∀ outcome : WaitOutcome, outcome.IsForeign pids → ∀ before after,
      ((Wait.start pids).run (followedBy before (Seq.cons outcome after))).map Prod.fst =
        ((Wait.start pids).run (followedBy before after)).map Prod.fst) ∧
    ∀ m : Machine σ, pids ≠ [] → ReapsOnce pids (m.await k).outcomes →
      ∃ used rest, (m.await k).outcomes ++ [.failed .noChild] = used ++ rest ∧
        Stops pids used (m.waitAll k pids).1 ∧
        (m.waitAll k pids).2 = { m.await k with outcomes := rest.dropLast } := by
  refine ⟨?_, Wait.run_start_ofList pids, fun outcomes => Wait.run_done rfl outcomes, fun m => rfl, ?_,
    fun m hne honce => m.waitAll_stops k hne honce⟩
  · intro outcomes honce
    refine ⟨fun result rest => Wait.mem_run_iff honce, Wait.run_eq_none_iff honce, ?_⟩
    intro reaped rest hrun
    obtain ⟨used, hused, hstops⟩ := (Wait.mem_run_iff honce).mp hrun
    exact hstops.once (honce used rest hused)
  · intro outcome houtcome before after
    exact Wait.run_skip (w := Wait.start pids) houtcome (List.Subset.refl pids) before after

/-- Two children are reaped before waiting is interrupted for ever, and a third makes no difference; without
their ends there is no end of waiting. On a bench the third comes to its end last. -/
theorem waiting_is_exact_interrupted_forever :
    let used := [.failed .interrupted, .reaped 7 (Status.exitWord 1), .reaped 5 (Status.signalWord 2)]
    let outcomes := followedBy used interruptedForever
    let waited := Except.ok [(7, Status.exited 1), (5, Status.signaled 2)]
    let m := Bench.machine 0 [7, 5, 9]
    (Wait.EverReapsOnce [5, 7] outcomes ∧
      (Wait.start [5, 7]).run outcomes = Part.some (waited, interruptedForever) ∧
      (Wait.start [5, 7]).run interruptedForever = Part.none) ∧
    (WaitOutcome.IsForeign [5, 7] (.reaped 9 0) ∧
      ((Wait.start [5, 7]).run (followedBy [] (Seq.cons (.reaped 9 0) outcomes))).map Prod.fst =
        Part.some waited) ∧
    [5, 7] ≠ ([] : List Pid) ∧ ReapsOnce [5, 7] (m.await .bench).outcomes ∧
      ∃ used rest, (m.await .bench).outcomes ++ [.failed .noChild] = used ++ rest ∧
        Stops [5, 7] used (m.waitAll .bench [5, 7]).1 := by
  intro used outcomes waited m
  obtain ⟨hexact, -, -, -, hforeign, hmachine⟩ := waiting_is_exact Kernel.bench [5, 7]
  have hused : ReapsOnce [5, 7] used := by
    unfold ReapsOnce
    decide
  have hreap : reap [5, 7] used = some (waited, []) := rfl
  obtain ⟨all, hall, hstops⟩ := (reap_eq_some_iff hused).mp hreap
  rw [List.append_nil] at hall
  have hrun : (Wait.start [5, 7]).run outcomes = Part.some (waited, interruptedForever) :=
    Part.eq_some_iff.mpr (((hexact outcomes hused.interruptedForever).stops waited _).mpr
      ⟨used, rfl, hall ▸ hstops⟩)
  have hnone : Wait.EverReapsOnce [5, 7] interruptedForever := by
    rw [← followedBy_nil interruptedForever]
    exact ReapsOnce.interruptedForever (by unfold ReapsOnce; decide)
  have hthird : WaitOutcome.IsForeign [5, 7] (.reaped 9 0) := by
    unfold WaitOutcome.IsForeign
    decide
  have honce : ReapsOnce [5, 7] (m.await .bench).outcomes := by
    unfold ReapsOnce
    decide
  refine ⟨⟨hused.interruptedForever, hrun, ?_⟩, ⟨hthird, ?_⟩, by simp, honce, ?_⟩
  · exact (hexact _ hnone).endless.mpr fun _ _ => goesOn_interruptedForever (by simp)
  · rw [hforeign _ hthird, followedBy_nil, hrun, Part.map_some]
  · obtain ⟨front, rest, hfront, hfronts, -⟩ := hmachine m (by simp) honce
    exact ⟨front, rest, hfront, hfronts⟩

end

end LineShell
