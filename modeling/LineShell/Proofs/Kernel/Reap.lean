import LineShell.Kernel.Pipeline
import Mathlib.Data.List.Count
import Mathlib.Data.List.Induction

/-!
# Reaping over the outcomes to come

`reap` and `reapOne` walk along a list of outcomes of waiting. That each child is reaped exactly once is
said by counting: `reapedPids` are the numbers reaped in a list of outcomes.

* `reap_eq_some_iff` and `reap_eq_none_iff`: `reap` uses up the outcomes after which it `Stops`, because
  they have reaped all the children asked for, each as often as it was asked for, or because the last of
  them is a failure other than an interrupt. Without such a beginning of the outcomes it `GoesOn`.
* `reap_eq`: where each of the children asked for is reaped once, and waiting only ever fails for an
  interrupt, `reap` uses up a beginning of the outcomes in which it meets all of them, and gives what
  became of them (`endsOf`), whatever the order and whatever other children end between them.
* `pipelineStatus_endsOf`: from these the pipeline's status is that of its last child.
* `reapOne_eq`: likewise for one child, where the ends of other children stay to be waited for.
* `reapOne_first`: whatever else waiting brings, a child is reaped with its first end or not at all.
-/

namespace LineShell

/-- The child that an outcome reaps. -/
def WaitOutcome.pid? : WaitOutcome → Option Pid
  | .reaped pid _ => some pid
  | .failed _ => none

/-- The children that outcomes reap, in order. -/
def reapedPids (outcomes : List WaitOutcome) : List Pid := outcomes.filterMap (·.pid?)

@[simp] theorem reapedPids_nil : reapedPids [] = [] := rfl

@[simp] theorem reapedPids_reaped (pid : Pid) (word : Int32) (rest : List WaitOutcome) :
    reapedPids (.reaped pid word :: rest) = pid :: reapedPids rest := rfl

@[simp] theorem reapedPids_failed (errno : Errno) (rest : List WaitOutcome) :
    reapedPids (.failed errno :: rest) = reapedPids rest := rfl

@[simp] theorem reapedPids_append (first second : List WaitOutcome) :
    reapedPids (first ++ second) = reapedPids first ++ reapedPids second :=
  List.filterMap_append

/-- Outcomes that reap no child do not count. -/
theorem reapedPids_filter (outcomes : List WaitOutcome) :
    reapedPids (outcomes.filter fun outcome => outcome.pid?.isSome) = reapedPids outcomes := by
  induction outcomes with
  | nil => rfl
  | cons outcome rest ih =>
    cases outcome with
    | failed errno => exact ih
    | reaped pid word => exact congrArg (pid :: ·) ih

/-- A child that outcomes reap at most once, and first, is not reaped again. -/
theorem not_mem_reapedPids {pid : Pid} {word : Int32} {rest : List WaitOutcome}
    (h : (reapedPids (.reaped pid word :: rest)).count pid ≤ 1) : pid ∉ reapedPids rest := by
  rw [reapedPids_reaped, List.count_cons_self] at h
  exact List.count_eq_zero.mp (Nat.le_zero.mp (Nat.le_of_succ_le_succ h))

theorem count_reapedPids_of_ne {pid other : Pid} {word : Int32} {rest : List WaitOutcome}
    (hne : pid ≠ other) :
    (reapedPids (.reaped pid word :: rest)).count other = (reapedPids rest).count other := by
  rw [reapedPids_reaped, List.count_cons_of_ne hne]

/-- Waiting fails for nothing but an interrupt. -/
def OnlyInterrupted (outcomes : List WaitOutcome) : Prop :=
  ∀ errno, .failed errno ∈ outcomes → errno = .interrupted

theorem OnlyInterrupted.tail {outcome : WaitOutcome} {rest : List WaitOutcome}
    (h : OnlyInterrupted (outcome :: rest)) : OnlyInterrupted rest :=
  fun errno hmem => h errno (List.mem_cons_of_mem _ hmem)

theorem OnlyInterrupted.of_sublist {kept all : List WaitOutcome} (h : OnlyInterrupted all)
    (hsub : kept.Sublist all) : OnlyInterrupted kept :=
  fun errno hmem => h errno (hsub.subset hmem)

/-- The children among `pids` that outcomes reap, with what became of them, in order. -/
def endsOf (pids : List Pid) (outcomes : List WaitOutcome) : List (Pid × Status) :=
  outcomes.filterMap fun outcome =>
    match outcome with
    | .reaped pid word => if pid ∈ pids then some (pid, .ofWord word) else none
    | .failed _ => none

/-! ## Several children -/

section

variable {pids : List Pid} {pid : Pid} {word : Int32} {outcomes : List WaitOutcome}

theorem endsOf_reaped_of_mem (h : pid ∈ pids) :
    endsOf pids (.reaped pid word :: outcomes) = (pid, .ofWord word) :: endsOf pids outcomes := by
  unfold endsOf
  rw [List.filterMap_cons_some]
  simp [h]

theorem endsOf_reaped_of_not_mem (h : pid ∉ pids) :
    endsOf pids (.reaped pid word :: outcomes) = endsOf pids outcomes := by
  unfold endsOf
  rw [List.filterMap_cons_none]
  simp [h]

/-- Whether a child is asked for does not matter where it is not reaped. -/
theorem endsOf_erase (h : pid ∉ reapedPids outcomes) :
    endsOf (pids.erase pid) outcomes = endsOf pids outcomes := by
  induction outcomes with
  | nil => rfl
  | cons outcome rest ih =>
    cases outcome with
    | failed errno => exact ih h
    | reaped other word =>
      rw [reapedPids_reaped, List.mem_cons, not_or] at h
      have hmem : other ∈ pids.erase pid ↔ other ∈ pids := List.mem_erase_of_ne (Ne.symm h.1)
      by_cases hother : other ∈ pids
      · rw [endsOf_reaped_of_mem hother, endsOf_reaped_of_mem (hmem.mpr hother), ih h.2]
      · rw [endsOf_reaped_of_not_mem hother, endsOf_reaped_of_not_mem (mt hmem.mp hother), ih h.2]

theorem reap_interrupted (pids : List Pid) (outcomes : List WaitOutcome) (hne : pids ≠ []) :
    reap pids (.failed .interrupted :: outcomes) = reap pids outcomes := by
  cases pids with
  | nil => exact absurd rfl hne
  | cons first others => rw [reap, if_pos rfl]

theorem reap_reaped_of_mem (h : pid ∈ pids) :
    reap pids (.reaped pid word :: outcomes) =
      (reap (pids.erase pid) outcomes).map fun ended =>
        (ended.1.map fun reaped => (pid, .ofWord word) :: reaped, ended.2) := by
  cases pids with
  | nil => exact absurd h (by simp)
  | cons first others => rw [reap, if_pos h]

theorem reap_reaped_of_not_mem (hne : pids ≠ []) (h : pid ∉ pids) :
    reap pids (.reaped pid word :: outcomes) = reap pids outcomes := by
  cases pids with
  | nil => exact absurd rfl hne
  | cons first others => rw [reap, if_neg h]

end

/-! ### Where waiting stops -/

/-- No child asked for is reaped twice. -/
def ReapsOnce (pids : List Pid) (outcomes : List WaitOutcome) : Prop :=
  ∀ pid ∈ pids, (reapedPids outcomes).count pid ≤ 1

/-- Every child asked for has been reaped, as often as it was asked for. -/
def AllReaped (pids : List Pid) (outcomes : List WaitOutcome) : Prop :=
  ∀ pid, pids.count pid ≤ (reapedPids outcomes).count pid

/-- Waiting goes on after these outcomes: it has not failed, and not every child has been reaped. -/
structure GoesOn (pids : List Pid) (outcomes : List WaitOutcome) : Prop where
  interrupted : OnlyInterrupted outcomes
  unreaped : ¬ AllReaped pids outcomes

/-- Waiting stops after these outcomes, and not before, with this result. -/
inductive Stops (pids : List Pid) : List WaitOutcome → Except Errno (List (Pid × Status)) → Prop
  /-- Every child has been reaped, and that was not so before the last outcome. -/
  | all {used : List WaitOutcome} (hfail : OnlyInterrupted used) (hall : AllReaped pids used)
      (hfirst : ∀ start, start <+: used → AllReaped pids start → start = used) :
      Stops pids used (.ok (endsOf pids used))
  /-- No child is left to wait for. -/
  | vanished {used : List WaitOutcome} (hgoes : GoesOn pids used) :
      Stops pids (used ++ [.failed .noChild]) (.ok (endsOf pids used))
  | failed {used : List WaitOutcome} {errno : Errno} (hgoes : GoesOn pids used)
      (hinterrupted : errno ≠ .interrupted) (hchild : errno ≠ .noChild) :
      Stops pids (used ++ [.failed errno]) (.error errno)

/-- The children still to be reaped after some outcomes: those asked for without those reaped. -/
def pendingAfter (pids : List Pid) (outcomes : List WaitOutcome) : List Pid :=
  pids.diff (reapedPids outcomes)

section

variable {pids : List Pid} {outcomes : List WaitOutcome}

theorem ReapsOnce.of_append {rest : List WaitOutcome} (h : ReapsOnce pids (outcomes ++ rest)) :
    ReapsOnce pids outcomes := by
  intro pid hpid
  have hcount := h pid hpid
  rw [reapedPids_append, List.count_append] at hcount
  exact Nat.le_trans (Nat.le_add_right _ _) hcount

theorem ReapsOnce.tail {pid other : Pid} {word : Int32}
    (h : ReapsOnce pids (.reaped pid word :: outcomes)) : ReapsOnce (pids.erase other) outcomes := by
  intro child hchild
  have hcount := h child (List.mem_of_mem_erase hchild)
  rw [reapedPids_reaped] at hcount
  exact Nat.le_trans List.count_le_count_cons hcount

theorem AllReaped.mono {start : List WaitOutcome} (h : AllReaped pids start) (hstart : start <+: outcomes) :
    AllReaped pids outcomes := by
  intro pid
  obtain ⟨rest, rfl⟩ := hstart
  rw [reapedPids_append, List.count_append]
  exact Nat.le_add_right_of_le (h pid)

theorem pendingAfter_eq_nil_iff : pendingAfter pids outcomes = [] ↔ AllReaped pids outcomes := by
  unfold pendingAfter AllReaped
  rw [List.eq_nil_iff_forall_not_mem]
  apply forall_congr'
  intro pid
  rw [← List.count_eq_zero, List.count_diff]
  omega

theorem pendingAfter_erase (pids : List Pid) (pid : Pid) (word : Int32) (outcomes : List WaitOutcome) :
    pendingAfter (pids.erase pid) outcomes = pendingAfter pids (.reaped pid word :: outcomes) := by
  unfold pendingAfter
  rw [reapedPids_reaped, List.diff_cons]

theorem GoesOn.pendingAfter_ne_nil (h : GoesOn pids outcomes) {start : List WaitOutcome}
    (hstart : start <+: outcomes) : pendingAfter pids start ≠ [] :=
  fun hnil => h.unreaped ((pendingAfter_eq_nil_iff.mp hnil).mono hstart)

/-- **What waiting has come to after some outcomes**, if it has not stopped before: it goes on for the
children still pending, and its result begins with those that were reaped. The induction is on the
outcomes, each of which is looked at for the children that those before it have left. -/
theorem reap_append (honce : ReapsOnce pids outcomes) (hfail : OnlyInterrupted outcomes)
    (hopen : ∀ start, start <+: outcomes → start ≠ outcomes → pendingAfter pids start ≠ [])
    (later : List WaitOutcome) :
    reap pids (outcomes ++ later) = (reap (pendingAfter pids outcomes) later).map
      fun ended => (ended.1.map (endsOf pids outcomes ++ ·), ended.2) := by
  induction outcomes generalizing pids with
  | nil =>
    change reap pids later = (reap pids later).map _
    cases reap pids later with
    | none => rfl
    | some ended =>
      obtain ⟨result, rest⟩ := ended
      cases result <;> rfl
  | cons outcome outcomes ih =>
    have hne : pids ≠ [] := hopen [] List.nil_prefix (by simp)
    have hlater (start : List WaitOutcome) (hstart : start <+: outcomes) (hother : start ≠ outcomes) :
        pendingAfter pids (outcome :: start) ≠ [] :=
      hopen (outcome :: start) ((List.prefix_cons_inj outcome).mpr hstart)
        fun heq => hother (List.cons.inj heq).2
    cases outcome with
    | failed errno =>
      obtain rfl := hfail errno List.mem_cons_self
      rw [List.cons_append, reap_interrupted pids _ hne]
      exact ih honce hfail.tail hlater
    | reaped pid word =>
      simp only [← pendingAfter_erase] at hlater ⊢
      have hrest := ih honce.tail hfail.tail hlater
      by_cases hpid : pid ∈ pids
      · rw [List.cons_append, reap_reaped_of_mem hpid, hrest, endsOf_reaped_of_mem hpid,
          endsOf_erase (not_mem_reapedPids (honce pid hpid)), Option.map_map]
        congr 1
        funext ended
        rcases ended with ⟨result, rest⟩
        cases result <;> rfl
      · rw [List.erase_of_not_mem hpid] at hrest ⊢
        rw [List.cons_append, reap_reaped_of_not_mem hne hpid, hrest, endsOf_reaped_of_not_mem hpid]

theorem GoesOn.reap_append (h : GoesOn pids outcomes) (honce : ReapsOnce pids outcomes)
    (later : List WaitOutcome) :
    reap pids (outcomes ++ later) = (reap (pendingAfter pids outcomes) later).map
      fun ended => (ended.1.map (endsOf pids outcomes ++ ·), ended.2) :=
  LineShell.reap_append honce h.interrupted (fun _ hstart _ => h.pendingAfter_ne_nil hstart) later

/-- A failure other than an interrupt stops waiting; that no child is left does not count as one. -/
theorem reap_failed {errno : Errno} (hne : pids ≠ []) (herrno : errno ≠ .interrupted) :
    reap pids (.failed errno :: outcomes) =
      some (if errno = .noChild then .ok [] else .error errno, outcomes) := by
  obtain ⟨first, others, rfl⟩ := List.exists_cons_of_ne_nil hne
  rw [reap, if_neg herrno]
  split <;> rfl

/-- **Waiting stops where `Stops` says**, with that result, and uses up no outcome that comes later. -/
theorem reap_of_stops {result : Except Errno (List (Pid × Status))} (h : Stops pids outcomes result)
    (honce : ReapsOnce pids outcomes) (later : List WaitOutcome) :
    reap pids (outcomes ++ later) = some (result, later) := by
  cases h with
  | all hfail hall hfirst =>
    have hopen : ∀ start, start <+: outcomes → start ≠ outcomes → pendingAfter pids start ≠ [] := by
      intro start hstart hne hnil
      exact hne (hfirst start hstart (pendingAfter_eq_nil_iff.mp hnil))
    rw [reap_append honce hfail hopen, pendingAfter_eq_nil_iff.mpr hall, reap]
    simp [Except.map]
  | vanished hgoes =>
    have hchild : Errno.noChild ≠ .interrupted := by decide
    rw [List.append_assoc, hgoes.reap_append honce.of_append, List.singleton_append,
      reap_failed (hgoes.pendingAfter_ne_nil List.prefix_rfl) hchild, if_pos rfl]
    simp [Except.map]
  | failed hgoes hinterrupted hchild =>
    rw [List.append_assoc, hgoes.reap_append honce.of_append, List.singleton_append,
      reap_failed (hgoes.pendingAfter_ne_nil List.prefix_rfl) hinterrupted, if_neg hchild]
    rfl

/-- Outcomes after which waiting goes on do not end it. -/
theorem reap_of_goesOn (h : GoesOn pids outcomes) (honce : ReapsOnce pids outcomes) :
    reap pids outcomes = none := by
  have hrest := h.reap_append honce []
  obtain ⟨first, others, hpending⟩ := List.exists_cons_of_ne_nil (h.pendingAfter_ne_nil List.prefix_rfl)
  rw [hpending, List.append_nil] at hrest
  exact hrest

/-- **One more outcome** stops waiting, or waiting goes on after it. -/
theorem GoesOn.next (h : GoesOn pids outcomes) (outcome : WaitOutcome) :
    (∃ result, Stops pids (outcomes ++ [outcome]) result) ∨ GoesOn pids (outcomes ++ [outcome]) := by
  have hfail (hlast : OnlyInterrupted [outcome]) : OnlyInterrupted (outcomes ++ [outcome]) := by
    intro errno hmem
    rcases List.mem_append.mp hmem with hmem | hmem
    · exact h.interrupted errno hmem
    · exact hlast errno hmem
  cases outcome with
  | failed errno =>
    by_cases hinterrupted : errno = .interrupted
    · subst hinterrupted
      have hlast : OnlyInterrupted [.failed .interrupted] := by
        intro errno hmem
        exact WaitOutcome.failed.inj (List.mem_singleton.mp hmem)
      refine .inr ⟨hfail hlast, fun hall => h.unreaped ?_⟩
      intro pid
      have hcount := hall pid
      rwa [reapedPids_append, reapedPids_failed, reapedPids_nil, List.append_nil] at hcount
    · by_cases hchild : errno = .noChild
      · subst hchild
        exact .inl ⟨_, .vanished h⟩
      · exact .inl ⟨_, .failed h hinterrupted hchild⟩
  | reaped pid word =>
    have hreaped : OnlyInterrupted (outcomes ++ [.reaped pid word]) :=
      hfail fun errno hmem => absurd hmem (by simp)
    by_cases hall : AllReaped pids (outcomes ++ [.reaped pid word])
    · refine .inl ⟨_, .all hreaped hall ?_⟩
      intro start hstart hstarted
      rcases List.prefix_concat_iff.mp hstart with heq | hstart
      · exact heq
      · exact absurd (hstarted.mono hstart) h.unreaped
    · exact .inr ⟨hreaped, hall⟩

/-- **Waiting stops after a beginning of the outcomes, or goes on after all of them.** -/
theorem stops_or_goesOn (pids : List Pid) (outcomes : List WaitOutcome) :
    (∃ used rest result, outcomes = used ++ rest ∧ Stops pids used result) ∨ GoesOn pids outcomes := by
  induction outcomes using List.reverseRecOn with
  | nil =>
    have hfail : OnlyInterrupted [] := fun errno hmem => absurd hmem (by simp)
    by_cases hall : AllReaped pids []
    · exact .inl ⟨[], [], _, rfl, .all hfail hall fun start hstart _ => List.prefix_nil.mp hstart⟩
    · exact .inr ⟨hfail, hall⟩
  | append_singleton outcomes outcome ih =>
    rcases ih with ⟨used, rest, result, rfl, hstops⟩ | hgoes
    · exact .inl ⟨used, rest ++ [outcome], result, List.append_assoc _ _ _, hstops⟩
    · rcases hgoes.next outcome with ⟨result, hstops⟩ | hgoes
      · exact .inl ⟨_, [], result, (List.append_nil _).symm, hstops⟩
      · exact .inr hgoes

/-- **What waiting comes to, and which outcomes it uses up.** -/
theorem reap_eq_some_iff {result : Except Errno (List (Pid × Status))} {rest : List WaitOutcome}
    (honce : ReapsOnce pids outcomes) :
    reap pids outcomes = some (result, rest) ↔ ∃ used, outcomes = used ++ rest ∧ Stops pids used result := by
  constructor
  · intro h
    rcases stops_or_goesOn pids outcomes with ⟨used, left, other, rfl, hstops⟩ | hgoes
    · rw [reap_of_stops hstops honce.of_append] at h
      obtain ⟨rfl, rfl⟩ := Prod.mk.inj (Option.some.inj h)
      exact ⟨used, rfl, hstops⟩
    · rw [reap_of_goesOn hgoes honce] at h
      exact absurd h (by simp)
  · rintro ⟨used, rfl, hstops⟩
    exact reap_of_stops hstops honce.of_append rest

/-- **Waiting does not end** exactly with outcomes after which it goes on. -/
theorem reap_eq_none_iff (honce : ReapsOnce pids outcomes) :
    reap pids outcomes = none ↔ GoesOn pids outcomes := by
  constructor
  · intro h
    rcases stops_or_goesOn pids outcomes with ⟨used, rest, result, rfl, hstops⟩ | hgoes
    · rw [reap_of_stops hstops honce.of_append] at h
      exact absurd h (by simp)
    · exact hgoes
  · intro h
    exact reap_of_goesOn h honce

end

/-- **Each child asked for is reaped once, whatever the order**: `reap` stops when it has met them all,
and leaves the rest of the outcomes, and whatever comes after them, as they are. -/
theorem reap_eq {pids : List Pid} {outcomes : List WaitOutcome} (hnodup : pids.Nodup)
    (hcount : ∀ pid ∈ pids, (reapedPids outcomes).count pid = 1) (hfail : OnlyInterrupted outcomes)
    (later : List WaitOutcome) :
    ∃ used rest, outcomes = used ++ rest ∧
      reap pids (outcomes ++ later) = some (.ok (endsOf pids used), rest ++ later) ∧
      ∀ pid ∈ pids, (reapedPids used).count pid = 1 := by
  have hall : AllReaped pids outcomes := by
    intro pid
    by_cases hpid : pid ∈ pids
    · refine Nat.le_of_eq ?_
      rw [hcount pid hpid, hnodup.count, if_pos hpid]
    · rw [List.count_eq_zero.mpr hpid]
      exact Nat.zero_le _
  have honce : ReapsOnce pids outcomes := fun pid hpid => Nat.le_of_eq (hcount pid hpid)
  rcases stops_or_goesOn pids outcomes with ⟨used, rest, result, rfl, hstops⟩ | hgoes
  · have hreap := reap_of_stops hstops honce.of_append (rest ++ later)
    cases hstops with
    | all hquiet hreaped hfirst =>
      refine ⟨used, rest, rfl, by rw [List.append_assoc, hreap], ?_⟩
      intro pid hpid
      have hone : 1 ≤ pids.count pid := List.count_pos_iff.mpr hpid
      exact Nat.le_antisymm (honce.of_append pid hpid) (Nat.le_trans hone (hreaped pid))
    | vanished hgoes => exact absurd (hfail .noChild (by simp)) (by decide)
    | failed hgoes hinterrupted hchild => exact absurd (hfail _ (by simp)) hinterrupted
  · exact absurd hall hgoes.unreaped

theorem mem_reapedPids {pid : Pid} {outcomes : List WaitOutcome} :
    pid ∈ reapedPids outcomes ↔ ∃ word, .reaped pid word ∈ outcomes := by
  unfold reapedPids
  rw [List.mem_filterMap]
  constructor
  · rintro ⟨outcome, hmem, hpid⟩
    cases outcome with
    | failed errno => exact absurd hpid (by simp [WaitOutcome.pid?])
    | reaped other word =>
      obtain rfl : other = pid := by simpa [WaitOutcome.pid?] using hpid
      exact ⟨word, hmem⟩
  · rintro ⟨word, hmem⟩
    exact ⟨.reaped pid word, hmem, rfl⟩

/-- A child that was reaped once is found among the ends, with what became of it. -/
theorem find?_endsOf {pids : List Pid} {last : Pid} {word : Int32} {outcomes : List WaitOutcome}
    (hlast : last ∈ pids) (hmem : .reaped last word ∈ outcomes)
    (hcount : (reapedPids outcomes).count last = 1) :
    (endsOf pids outcomes).find? (fun child => some child.1 == some last) =
      some (last, .ofWord word) := by
  induction outcomes with
  | nil => exact absurd hmem (by simp)
  | cons outcome rest ih =>
    cases outcome with
    | failed errno => exact ih (by simpa using hmem) hcount
    | reaped pid other =>
      by_cases hpid : pid = last
      · subst hpid
        have hgone : pid ∉ reapedPids rest := not_mem_reapedPids (Nat.le_of_eq hcount)
        have hword : other = word := by
          rcases List.mem_cons.mp hmem with heq | hmem
          · exact (WaitOutcome.reaped.inj heq).2.symm
          · exact absurd (mem_reapedPids.mpr ⟨word, hmem⟩) hgone
        rw [endsOf_reaped_of_mem hlast, hword, List.find?_cons_of_pos (by simp)]
      · have hmem' : .reaped last word ∈ rest := by
          rcases List.mem_cons.mp hmem with heq | hmem
          · exact absurd (WaitOutcome.reaped.inj heq).1.symm hpid
          · exact hmem
        rw [count_reapedPids_of_ne hpid] at hcount
        by_cases hin : pid ∈ pids
        · rw [endsOf_reaped_of_mem hin, List.find?_cons_of_neg (by simpa using hpid)]
          exact ih hmem' hcount
        · rw [endsOf_reaped_of_not_mem hin]
          exact ih hmem' hcount

/-- **The pipeline's status is that of its last child**, wherever that comes among the children
reaped. -/
theorem pipelineStatus_endsOf {pids : List Pid} {last : Pid} {word : Int32}
    {outcomes : List WaitOutcome} (hlast : pids.getLast? = some last)
    (hmem : .reaped last word ∈ outcomes) (hcount : (reapedPids outcomes).count last = 1) :
    Machine.pipelineStatus pids (endsOf pids outcomes) = .ofWord word := by
  unfold Machine.pipelineStatus
  rw [hlast, find?_endsOf (List.mem_of_getLast? hlast) hmem hcount]

/-! ## One child -/

/-- **The one child asked for is reaped once**: interrupts before its end are used up, and the ends of
other children stay to be waited for. -/
theorem reapOne_eq {pid : Pid} {outcomes : List WaitOutcome}
    (hmem : pid ∈ reapedPids outcomes) (hfail : OnlyInterrupted outcomes) :
    ∃ before word after, outcomes = before ++ .reaped pid word :: after ∧ pid ∉ reapedPids before ∧
      reapOne pid outcomes =
        (.ok (.ofWord word), before.filter (fun outcome => outcome.pid?.isSome) ++ after) := by
  induction outcomes with
  | nil => exact absurd hmem (by simp)
  | cons outcome rest ih =>
    cases outcome with
    | failed errno =>
      obtain rfl := hfail errno List.mem_cons_self
      obtain ⟨before, word, after, rfl, hbefore, hreap⟩ := ih hmem hfail.tail
      refine ⟨.failed .interrupted :: before, word, after, rfl, hbefore, ?_⟩
      rw [reapOne, if_pos rfl, hreap]
      rfl
    | reaped other word =>
      by_cases hother : other = pid
      · subst hother
        exact ⟨[], word, rest, rfl, by simp, by rw [reapOne, if_pos rfl]; rfl⟩
      · have hmem' : pid ∈ reapedPids rest := by
          rw [reapedPids_reaped] at hmem
          exact (List.mem_cons.mp hmem).resolve_left (Ne.symm hother)
        obtain ⟨before, word', after, rfl, hbefore, hreap⟩ := ih hmem' hfail.tail
        refine ⟨.reaped other word :: before, word', after, rfl, ?_, ?_⟩
        · rw [reapedPids_reaped, List.mem_cons, not_or]
          exact ⟨Ne.symm hother, hbefore⟩
        · rw [reapOne, if_neg hother, hreap]
          rfl

/-- One child is reaped with the first end of it that waiting brings, unless waiting fails before. -/
theorem reapOne_first {pid : Pid} {before : List WaitOutcome} (word : Int32) (after : List WaitOutcome)
    (h : pid ∉ reapedPids before) :
    (reapOne pid (before ++ .reaped pid word :: after)).1 = .ok (.ofWord word) ∨
      ∃ errno, (reapOne pid (before ++ .reaped pid word :: after)).1 = .error errno := by
  induction before with
  | nil => exact Or.inl (by rw [List.nil_append, reapOne, if_pos rfl])
  | cons outcome rest ih =>
    cases outcome with
    | failed errno =>
      rw [List.cons_append, reapOne]
      split
      · exact ih h
      · exact Or.inr ⟨errno, rfl⟩
    | reaped other word' =>
      rw [reapedPids_reaped, List.mem_cons, not_or] at h
      rw [List.cons_append, reapOne, if_neg (Ne.symm h.1)]
      exact ih h.2

end LineShell
