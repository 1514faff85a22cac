import LineShell.Proofs.Kernel.Output
import LineShell.System.Console
import Mathlib.Data.List.Nodup

/-!
# The children of the interpreter in memory

The programs that the interpreter has started are the jobs of a world that are its own (`World.running`).
Whatever programs do, each of them comes to its end once (`Kernel.inMemory_childLaws`).

* `World.mem_running_setJob`, `World.finish_passes`: the two ways to change a job.
* `World.stepJob_passes`: one step of a job, by the cases of what it is going to do; from it
  `World.go_passes`, what happens until a wait is over.
* `World.go_drained`: a wait that no fatal signal ends and that is not stuck leaves no program behind.
* `Kernel.inMemory_speechLaws`: what reaches the system can be written down, whatever account is given of
  what these programs write.
* `Machine.ask_eq_console`: the prompts of a session are those of a console.
-/

namespace LineShell

namespace World

/-! ## Jobs of the interpreter -/

/-- The numbers of the programs that the interpreter has started. -/
def running (w : World) : List Pid := (w.jobs.list.filter (·.own)).map Job.pid

theorem mem_running {w : World} {pid : Pid} :
    pid ∈ w.running ↔ ∃ job ∈ w.jobs.list, job.own = true ∧ job.pid = pid := by
  simp only [running, List.mem_map, List.mem_filter]
  constructor
  · rintro ⟨job, ⟨hmem, hown⟩, rfl⟩
    exact ⟨job, hmem, hown, rfl⟩
  · rintro ⟨job, hmem, hown, rfl⟩
    exact ⟨job, ⟨hmem, hown⟩, rfl⟩

theorem nodup_running (w : World) : w.running.Nodup :=
  w.jobs.nodup.sublist (List.filter_sublist.map Job.pid)

/-- Lists of running programs with the same members are the same but for their order. -/
theorem perm_running {w w' : World} (h : ∀ pid, pid ∈ w'.running ↔ pid ∈ w.running) :
    w'.running.Perm w.running :=
  (List.perm_ext_iff_of_nodup w'.nodup_running w.nodup_running).mpr h

/-- The jobs of a world have numbers of their own. -/
theorem eq_of_pid {w : World} {job other : Job} (hjob : job ∈ w.jobs.list) (hother : other ∈ w.jobs.list)
    (h : job.pid = other.pid) : job = other :=
  List.inj_on_of_nodup_map w.jobs.nodup hjob hother h

theorem mem_put {jobs : Jobs} {job other : Job} :
    other ∈ (jobs.put job).list ↔ other = job ∨ other ∈ jobs.list ∧ other.pid ≠ job.pid := by
  unfold Jobs.put
  simp only
  split
  · rename_i hany
    obtain ⟨old, hold, hpid⟩ := List.any_eq_true.mp hany
    unfold Jobs.replace
    rw [List.mem_map]
    constructor
    · rintro ⟨found, hfound, rfl⟩
      split
      · exact .inl rfl
      · rename_i hne
        exact .inr ⟨hfound, hne⟩
    · rintro (rfl | ⟨hmem, hne⟩)
      · exact ⟨old, hold, if_pos (of_decide_eq_true hpid)⟩
      · exact ⟨other, hmem, if_neg hne⟩
  · rename_i hnew
    rw [List.mem_append, List.mem_singleton, or_comm]
    refine or_congr_right ⟨fun hmem => ⟨hmem, fun hpid => hnew ?_⟩, And.left⟩
    exact List.any_eq_true.mpr ⟨other, hmem, decide_eq_true hpid⟩

theorem mem_remove {jobs : Jobs} {pid : Pid} {other : Job} :
    other ∈ (jobs.remove pid).list ↔ other ∈ jobs.list ∧ other.pid ≠ pid := by
  simp [Jobs.remove]

theorem mem_running_setJob {w : World} {job : Job} {pid : Pid} :
    pid ∈ (w.setJob job).running ↔ job.own = true ∧ job.pid = pid ∨ pid ≠ job.pid ∧ pid ∈ w.running := by
  rw [mem_running, mem_running]
  change (∃ other ∈ (w.jobs.put job).list, _) ↔ _
  simp only [mem_put]
  constructor
  · rintro ⟨other, rfl | ⟨hmem, hne⟩, hown, rfl⟩
    · exact .inl ⟨hown, rfl⟩
    · exact .inr ⟨hne, other, hmem, hown, rfl⟩
  · rintro (⟨hown, rfl⟩ | ⟨hne, other, hmem, hown, rfl⟩)
    · exact ⟨job, .inl rfl, hown, rfl⟩
    · exact ⟨other, .inr ⟨hmem, hne⟩, hown, rfl⟩

/-- A job is there, perhaps in another state. -/
def Has (w : World) (job : Job) : Prop :=
  ∃ old ∈ w.jobs.list, old.pid = job.pid ∧ old.own = job.own

theorem has_of_mem {w : World} {job : Job} (h : job ∈ w.jobs.list) : w.Has job := ⟨job, h, rfl, rfl⟩

theorem has_setJob (w : World) (job : Job) : (w.setJob job).Has job := has_of_mem (mem_put.mpr (.inl rfl))

/-- What changes of a job may be anything but its number and whose it is. -/
theorem Has.congr {w : World} {job job' : Job} (h : w.Has job) (hpid : job'.pid = job.pid)
    (hown : job'.own = job.own) : w.Has job' := by
  obtain ⟨old, hold, holdPid, holdOwn⟩ := h
  exact ⟨old, hold, holdPid.trans hpid.symm, holdOwn.trans hown.symm⟩

/-- Of the programs that run, those with the number of a job are the job itself. -/
theorem Has.mem_running_iff {w : World} {job : Job} (h : w.Has job) :
    job.pid ∈ w.running ↔ job.own = true := by
  obtain ⟨old, hold, hpid, hown⟩ := h
  rw [mem_running]
  constructor
  · rintro ⟨other, hother, hotherOwn, heq⟩
    obtain rfl := eq_of_pid hother hold (heq.trans hpid.symm)
    exact hown.symm.trans hotherOwn
  · intro h
    exact ⟨old, hold, hown.trans h, hpid⟩

/-- Another state of a job that is there. -/
theorem Has.running_setJob {w : World} {job : Job} (h : w.Has job) :
    (w.setJob job).running.Perm w.running := by
  refine perm_running fun pid => mem_running_setJob.trans ?_
  by_cases hpid : pid = job.pid
  · subst hpid
    simp [h.mem_running_iff]
  · simp [hpid, Ne.symm hpid]

/-- A new job of the interpreter. -/
theorem running_setJob_own {w : World} {job : Job} (hown : job.own = true) (hnew : job.pid ∉ w.running) :
    (w.setJob job).running.Perm (job.pid :: w.running) := by
  refine (List.perm_ext_iff_of_nodup (nodup_running _) (List.nodup_cons.mpr ⟨hnew, w.nodup_running⟩)).mpr
    fun pid => mem_running_setJob.trans ?_
  rw [List.mem_cons]
  constructor
  · rintro (⟨-, rfl⟩ | ⟨-, hmem⟩)
    · exact .inl rfl
    · exact .inr hmem
  · rintro (rfl | hmem)
    · exact .inl ⟨hown, rfl⟩
    · exact .inr ⟨fun heq => hnew (heq ▸ hmem), hmem⟩

/-- A new job of some program. -/
theorem running_setJob_other {w : World} {job : Job} (hown : job.own = false) (hnew : job.pid ∉ w.running) :
    (w.setJob job).running.Perm w.running := by
  refine perm_running fun pid => mem_running_setJob.trans ?_
  rw [hown]
  constructor
  · rintro (⟨h, -⟩ | ⟨-, hmem⟩)
    · cases h
    · exact hmem
  · intro hmem
    exact .inr ⟨fun heq => hnew (heq ▸ hmem), hmem⟩

/-! ## One step -/

/-- What happened accounts for the programs of the interpreter: those that ended did so once, and the
others run. -/
def Passes (w : World) (after : World × List Event) : Prop :=
  (endedPids after.2 ++ after.1.running).Perm w.running

theorem Passes.after {w w' : World} {after : World × List Event} (hsame : w'.running.Perm w.running)
    (h : w'.Passes after) : w.Passes after :=
  List.Perm.trans h hsame

theorem Passes.silent {w w' : World} (h : w'.running.Perm w.running) : w.Passes (w', []) := h

/-- **A job that comes to its end does so once.** -/
theorem Has.finish_passes {w : World} {job : Job} (h : w.Has job) (word : Int32) :
    w.Passes (w.finish job word) := by
  have hremoved (pid : Pid) : pid ∈ ({ w with jobs := w.jobs.remove job.pid } : World).running ↔
      pid ≠ job.pid ∧ pid ∈ w.running := by
    rw [mem_running, mem_running]
    simp only [mem_remove]
    constructor
    · rintro ⟨other, ⟨hmem, hne⟩, hown, rfl⟩
      exact ⟨hne, other, hmem, hown, rfl⟩
    · rintro ⟨hne, other, hmem, hown, rfl⟩
      exact ⟨other, ⟨hmem, hne⟩, hown, rfl⟩
  unfold finish
  cases hown : job.own with
  | true =>
    have hmem := h.mem_running_iff.mpr hown
    have hgone : job.pid ∉ ({ w with jobs := w.jobs.remove job.pid } : World).running := fun hin =>
      ((hremoved _).mp hin).1 rfl
    refine (List.perm_ext_iff_of_nodup (List.nodup_cons.mpr ⟨hgone, nodup_running _⟩) w.nodup_running).mpr
      fun pid => List.mem_cons.trans ?_
    rw [hremoved]
    by_cases hpid : pid = job.pid
    · subst hpid
      simp [hmem]
    · simp [hpid]
  | false =>
    refine .silent (perm_running fun pid => (hremoved pid).trans ?_)
    have hnot : job.pid ∉ w.running := fun hmem => by
      rw [h.mem_running_iff, hown] at hmem
      cases hmem
    exact ⟨And.right, fun hmem => ⟨fun heq => hnot (heq ▸ hmem), hmem⟩⟩

theorem Has.signalJob_passes {w : World} {job : Job} (h : w.Has job) (signal : Nat) :
    w.Passes (w.signalJob job signal) := by
  let resumed : Job := { job with stopped := job.stopped && signal != continueSignal }
  have hresumed : w.Has resumed := h.congr rfl rfl
  have hsame := hresumed.running_setJob
  have hthere := has_setJob w resumed
  have hstopped : (w.setJob resumed).Has { resumed with stopped := true } := hthere.congr rfl rfl
  have htold : (w.setJob resumed).Has
      { resumed with caller := { job.caller with arrived := job.caller.arrived ++ [signal] } } :=
    hthere.congr rfl rfl
  unfold signalJob
  simp only
  split
  · exact .silent (hstopped.running_setJob.trans hsame)
  · split
    · exact .silent hsame
    · split
      · exact .silent (htold.running_setJob.trans hsame)
      · split
        · exact .silent hsame
        · exact (hthere.finish_passes _).after hsame

theorem signal_passes (w : World) (interpreter pid : Pid) (signal : Nat) :
    w.Passes (w.signal interpreter pid signal) := by
  unfold World.signal
  split
  · split
    · exact .silent (.refl _)
    · exact .refl _
  · split
    · rename_i job hfind
      exact (has_of_mem (List.mem_of_find?_eq_some hfind)).signalJob_passes signal
    · exact .silent (.refl _)

/-- Another state of a job that is there, in a world that has the same jobs. -/
theorem running_setJob_of_jobs {w w' : World} (hjobs : w'.jobs = w.jobs) {old job : Job}
    (hold : old ∈ w.jobs.list) (hpid : old.pid = job.pid) (hown : old.own = job.own) :
    (w'.setJob job).running.Perm w.running := by
  have hsame : w'.running = w.running := by
    unfold running
    rw [hjobs]
  have hthere : w'.Has job := ⟨old, hjobs ▸ hold, hpid, hown⟩
  rw [← hsame]
  exact hthere.running_setJob

/-- The next number that a program gives is not one of the interpreter's. -/
theorem next_not_mem_running (w : World) : w.jobs.next ∉ w.running := by
  rw [mem_running]
  rintro ⟨job, hmem, -, hpid⟩
  exact absurd (w.jobs.below job hmem) (hpid ▸ Nat.lt_irrefl _)

/-- A job that a program starts, in a world in which the same programs run. -/
theorem running_setJob_next {w w' : World} {child : Job} (hsame : w'.running.Perm w.running)
    (hpid : child.pid = w.jobs.next) (hown : child.own = false) :
    (w'.setJob child).running.Perm w.running := by
  have hnew : child.pid ∉ w'.running := fun hmem =>
    w.next_not_mem_running (hpid ▸ hsame.mem_iff.mp hmem)
  exact (running_setJob_other hown hnew).trans hsame

/-- **A step of a job accounts for the programs of the interpreter**, whatever the job does. -/
theorem stepJob_passes {w : World} {catalogue : Catalogue} {interpreter : Process} {job : Job}
    (hjob : job ∈ w.jobs.list) {after : World × List Event}
    (h : w.stepJob catalogue interpreter job = some after) : w.Passes after := by
  unfold stepJob at h
  simp only at h
  split at h
  · -- it comes to its end
    obtain rfl := Option.some.inj h
    exact (show World.Has { w with clock := max w.clock job.wake } job from has_of_mem hjob).finish_passes _
  · -- it makes a call
    split at h
    · cases h
    · obtain rfl := Option.some.inj h
      refine .silent (running_setJob_of_jobs ?_ hjob ?_ ?_) <;> rfl
  · -- it lets time pass
    obtain rfl := Option.some.inj h
    refine .silent (running_setJob_of_jobs ?_ hjob ?_ ?_) <;> rfl
  · -- it starts a copy of itself
    obtain rfl := Option.some.inj h
    refine .silent (running_setJob_next (running_setJob_of_jobs ?_ hjob ?_ ?_) ?_ ?_) <;> rfl
  · -- it waits
    split at h
    · obtain rfl := Option.some.inj h
      refine .silent (running_setJob_of_jobs ?_ hjob ?_ ?_) <;> rfl
    · split at h
      · cases h
      · obtain rfl := Option.some.inj h
        refine .silent (running_setJob_of_jobs ?_ hjob ?_ ?_) <;> rfl
  · -- it sends a signal
    obtain rfl := Option.some.inj h
    refine (signal_passes _ _ _ _).after (running_setJob_of_jobs ?_ hjob ?_ ?_) <;> rfl
  · -- it is replaced by a program
    split at h
    · obtain rfl := Option.some.inj h
      refine .silent (running_setJob_of_jobs ?_ hjob ?_ ?_) <;> rfl
    · obtain rfl := Option.some.inj h
      refine .silent (running_setJob_of_jobs ?_ hjob ?_ ?_) <;> rfl

/-! ## A whole wait -/

section

variable {catalogue : Catalogue} {interpreter : Process} {fatal : Nat → Bool}

theorem step_passes {w : World} {after : World × List Event}
    (h : w.step catalogue interpreter = some after) : w.Passes after := by
  obtain ⟨job, hmem, hstep⟩ := List.exists_of_findSome?_eq_some h
  have hjob := List.mem_filter.mp ((List.mergeSort_perm _ _).mem_iff.mp hmem)
  exact stepJob_passes hjob.1 hstep

theorem endedPids_stop (events : List Event) (w : World) :
    endedPids (await.stop events w).1 = endedPids events.reverse := by
  unfold await.stop
  cases w.isAwaited
  · rfl
  · simp [endedPids, Event.pid?]

/-- **What happened until a wait is over accounts for the programs of the interpreter.** -/
theorem go_passes (more : Nat) (deadline : Option Nat) (events : List Event) (w : World) :
    (endedPids (await.go catalogue fatal interpreter more deadline events w).1 ++
      (await.go catalogue fatal interpreter more deadline events w).2.running).Perm
      (endedPids events.reverse ++ w.running) := by
  induction more generalizing deadline events w with
  | zero =>
    change (endedPids (await.stop events w).1 ++ w.running).Perm _
    rw [endedPids_stop]
  | succ more ih =>
    unfold await.go
    cases hstep : w.step catalogue interpreter with
    | none =>
      change (endedPids (await.stop events w).1 ++ w.running).Perm _
      rw [endedPids_stop]
    | some after =>
      obtain ⟨next, happened⟩ := after
      simp only
      generalize deadline.or _ = later
      split
      · exact .refl _
      · refine (ih _ _ next).trans ?_
        rw [List.reverse_append, List.reverse_reverse, endedPids_append, List.append_assoc]
        exact (step_passes hstep).append_left _

/-- No program of the interpreter runs where it waits for none. -/
theorem running_eq_nil_of_not_awaited {w : World} (h : w.isAwaited = false) : w.running = [] := by
  unfold running
  rw [List.filter_eq_nil_iff.mpr fun job hjob => ?_, List.map_nil]
  exact List.any_eq_false.mp h job hjob

/-- There is nothing left to wait for: no program of the interpreter runs, or a fatal signal has reached
it. -/
def Over (fatal : Nat → Bool) (events : List Event) (w : World) : Prop :=
  w.running = [] ∨ ∃ number, .signal number ∈ events ∧ fatal number = true

theorem Over.reverse {events : List Event} {w : World} (h : Over fatal events w) :
    Over fatal events.reverse w := by
  rcases h with h | ⟨number, hmem, hfatal⟩
  · exact .inl h
  · exact .inr ⟨number, List.mem_reverse.mpr hmem, hfatal⟩

/-- No program of the interpreter is started while it waits. -/
theorem Over.step {events : List Event} {w : World} (h : Over fatal events w) {next : World}
    {happened : List Event} (hstep : w.step catalogue interpreter = some (next, happened)) :
    Over fatal (happened.reverse ++ events) next := by
  rcases h with h | ⟨number, hmem, hfatal⟩
  · have hpasses : (endedPids happened ++ next.running).Perm w.running := step_passes hstep
    rw [h] at hpasses
    exact .inl (List.append_eq_nil_iff.mp hpasses.eq_nil).2
  · exact .inr ⟨number, List.mem_append_right _ hmem, hfatal⟩

theorem stop_over (events : List Event) (w : World) :
    .stuck ∈ (await.stop events w).1 ∨ Over fatal (await.stop events w).1 (await.stop events w).2 := by
  unfold await.stop
  cases hawaited : w.isAwaited with
  | true => exact .inl (by simp)
  | false => exact .inr (.inl (running_eq_nil_of_not_awaited hawaited))

/-- The last of the programs has come to its end, or a fatal signal is what happened last. -/
theorem over_of_last {events : List Event} {w : World}
    (h : (!w.isAwaited) = true ∨ events.head?.any (await.isFatal fatal) = true) : Over fatal events w := by
  rcases h with hawaited | hfatal
  · exact .inl (running_eq_nil_of_not_awaited (Bool.not_eq_true' _ ▸ hawaited))
  · cases events with
    | nil => cases hfatal
    | cons event rest =>
      cases event with
      | signal number => exact .inr ⟨number, List.mem_cons_self, hfatal⟩
      | ended | stuck => cases hfatal

/-- **A wait that is not stuck goes on until there is nothing left to wait for.** -/
theorem go_over (more : Nat) (deadline : Option Nat) (events : List Event) (w : World)
    (h : deadline.isSome → Over fatal events w) :
    let after := await.go catalogue fatal interpreter more deadline events w
    .stuck ∈ after.1 ∨ Over fatal after.1 after.2 := by
  induction more generalizing deadline events w with
  | zero => exact stop_over events w
  | succ more ih =>
    unfold await.go
    cases hstep : w.step catalogue interpreter with
    | none => exact stop_over events w
    | some after =>
      obtain ⟨next, happened⟩ := after
      simp only
      generalize hlater : deadline.or _ = later
      have hover : later.isSome → Over fatal events w := by
        subst hlater
        cases deadline with
        | some time => exact fun _ => h rfl
        | none =>
          intro hlast
          rw [Option.none_or, Option.isSome_ite, Bool.or_eq_true] at hlast
          exact over_of_last hlast
      split
      · rename_i hpast
        exact .inr (hover (Option.isSome_of_any hpast)).reverse
      · exact ih later _ next fun hlate => (hover hlate).step hstep

end

end World

/-! ## The system calls -/

namespace Kernel

variable {interpreter : Pid}

/-- **The programs that the interpreter starts come to their ends, each once, whatever they do**: the
children of a kernel that carries out everything in memory. -/
theorem inMemory_childLaws : Kernel.inMemory.ChildLaws interpreter World.running where
  keeps pids :=
    { openFile := fun hopen hs => by
        obtain ⟨opened, -, heq⟩ := map_eq_ok.mp hopen
        obtain ⟨-, rfl⟩ := Prod.mk.inj heq
        exact hs
      write := fun _ _ _ hs => hs
      fork := fun hfork hs => Except.ok.inj hfork ▸ hs }
  newPipe hnew := by
    obtain ⟨-, rfl⟩ := Prod.mk.inj (Except.ok.inj hnew)
    exact .refl _
  start {words p w w'} hstart _ hnew := by
    obtain ⟨image, -, rfl⟩ := map_eq_ok.mp hstart
    exact World.running_setJob_own rfl hnew
  await fatal p w _ := World.go_passes World.patience none [] w
  drained fatal p w _ hsurvives hstuck := by
    rcases World.go_over World.patience none [] w (by simp) with h | hempty | ⟨number, hmem, hfatal⟩
    · exact absurd h hstuck
    · exact hempty
    · rw [hsurvives number hmem] at hfatal
      cases hfatal

/-- **What reaches the system in memory can be written down**, whatever account is given of what the
running programs write. -/
theorem inMemory_speechLaws (account : Account World)
    (h : ∀ fatal p w, ∀ word ∈ account fatal p w, word.1 ∈ w.running) :
    (Kernel.inMemory.recorded account).SpeechLaws (fun s => s.1.running) Prod.snd :=
  Kernel.recorded_speechLaws World.running h

/-- **A pipe takes what is written to it**, whatever programs do meanwhile. -/
theorem inMemory_takes (account : Account World) (id : Nat) (side : PipeEnd) :
    (Kernel.inMemory.recorded account).Takes (.pipe id side) fun _ => True where
  openFile _ _ := trivial
  write _ _ _ _ := trivial
  fork _ _ := trivial
  start _ _ := trivial
  newPipe _ _ := trivial
  await _ _ _ _ := trivial
  takes _ _ := rfl

end Kernel

/-! ## The console -/

/-- What a session in memory is made to do is what a console does. -/
theorem Session.hostOf_inMemory (log : Log.Filter) :
    Session.hostOf Kernel.inMemory = (Machine.console log).toHost := rfl

theorem Machine.ask_eq_console (log : Log.Filter) (prompt : Text) (ended : Bool) (m : Machine World) :
    m.ask Kernel.inMemory prompt ended =
      (Machine.console log).endLine ended ((Machine.console log).ask true prompt m) := rfl

end LineShell
