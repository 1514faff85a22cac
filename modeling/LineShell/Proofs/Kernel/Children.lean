import LineShell.Proofs.Evaluation.Preserve
import LineShell.Proofs.Kernel.Laws
import LineShell.Proofs.Kernel.Reap
import LineShell.Proofs.Kernel.Stage

/-!
# The interpreter's children

A child that was forked is **unreaped** until a wait reaps it: either its program still runs, or it has
come to its end and one of the outcomes to come reaps it. Counting the unreaped children is what shows
that each is reaped exactly once.

* `fork_unreaped`: a fork adds one.
* `await_unreaped`, `await_drained`: letting the programs go on neither adds nor loses one; and none runs
  any more, where the interpreter survives.
* `forkStages_grown`: the stages of a pipeline add one child each, as far as they are forked; where they
  are not, a pipe or a fork was refused (`CutOff`).
* `waitAll_reaps`, `waitFor_reaps`: what the two ways of waiting take away.

The system is trusted with `Kernel.ChildLaws`.
-/

namespace LineShell

variable {σ : Type u}

section

variable {k : Kernel σ} {interpreter : Pid} {running : σ → List Pid}

/-! ## In a child -/

/-- The child, if its program took it over. -/
def ChildResult.started (pid : Pid) : ChildResult → List Pid
  | .replaced => [pid]
  | .returned _ => []

/-- A child runs from when its program takes it over. -/
def Accounts (interpreter : Pid) (running : σ → List Pid)
    (body : Process → σ → ChildResult × Process × σ) : Prop :=
  ∀ p s, p.parent = interpreter → p.pid ∉ running s →
    (running (body p s).2.2).Perm ((body p s).1.started p.pid ++ running s)

/-- Carrying a command out starts one program, or none. -/
theorem commandBody_accounts (laws : k.ChildLaws interpreter running) (words : List Text) :
    Accounts interpreter running (commandBody k words) := by
  intro p s hparent hfresh
  have hresolve := resolve_keeps (laws.keeps (running s)).toKeepsOpening words p (s := s) (.refl _)
  obtain ⟨table, hprocess⟩ := resolve_process k words p s
  unfold commandBody Process.runCommand
  generalize resolve k words p s = resolved at hresolve hprocess ⊢
  obtain ⟨result, p', s'⟩ := resolved
  obtain rfl : p' = { p with table } := hprocess
  cases result with
  | error e => exact Process.write_keeps (laws.keeps (running s)) _ 2 _ hresolve
  | ok args =>
    cases args with
    | nil => exact hresolve
    | cons command rest =>
      simp only
      cases hlaunch : Process.launch k (command :: rest) { p with table } s' with
      | error e => exact Process.write_keeps (laws.keeps (running s)) _ 2 _ hresolve
      | ok s'' =>
        have hfresh' : p.pid ∉ running s' := fun h => hfresh (hresolve.mem_iff.mp h)
        exact (laws.start (Process.launch_eq_ok hlaunch) hparent hfresh').trans (hresolve.cons p.pid)

theorem stageBody_accounts (laws : k.ChildLaws interpreter running) {body : ChildBody σ}
    (hbody : ∀ words, Accounts interpreter running (body words)) (stage : Command) (input : Nat)
    (pipe : Option Process.PipeEnds) :
    Accounts interpreter running (stageBody k body stage input pipe) := by
  intro p s hparent hfresh
  unfold stageBody
  cases p.table.forStage input pipe with
  | ok table => exact hbody stage.words { p with table } s hparent hfresh
  | error failed => exact Process.write_keeps (laws.keeps (running s)) _ 2 _ (.refl _)

namespace Machine

/-! ## Counting the unreaped -/

/-- The children that were not reaped yet: those that outcomes to come reap, and those that run. -/
def unreaped (running : σ → List Pid) (m : Machine σ) : List Pid :=
  reapedPids m.outcomes ++ running m.world

/-- **A fork adds one unreaped child.** -/
theorem fork_unreaped (laws : k.ChildLaws interpreter running)
    {body : Process → σ → ChildResult × Process × σ} (hbody : Accounts interpreter running body)
    {m : Machine σ} (hpid : m.process.pid = interpreter) (hfresh : m.nextPid ∉ m.unreaped running) :
    ((m.fork k body).2.unreaped running).Perm (m.nextPid :: m.unreaped running) := by
  have hfresh' : m.child.pid ∉ running m.world := fun h => hfresh (List.mem_append_right _ h)
  have hran := hbody m.child m.world hpid hfresh'
  rw [fork_eq]
  unfold unreaped
  simp only
  generalize body m.child m.world = ran at hran ⊢
  obtain ⟨result, p, s⟩ := ran
  cases result with
  | replaced =>
    -- it runs
    have hrunning : (running s).Perm (m.nextPid :: running m.world) := hran
    simpa [Process.finish] using (hrunning.append_left (reapedPids m.outcomes)).trans List.perm_middle
  | returned code =>
    -- it has ended, and is among the outcomes to come
    have hended : (running (p.flush k s).2).Perm (running m.world) :=
      Process.flush_keeps (laws.keeps (running m.world)) p hran
    have hall : (reapedPids m.outcomes ++ ([m.nextPid] ++ running (p.flush k s).2)).Perm
        (m.nextPid :: (reapedPids m.outcomes ++ running m.world)) :=
      ((hended.cons m.nextPid).append_left (reapedPids m.outcomes)).trans List.perm_middle
    simpa [Process.finish] using hall

/-- Flushing leaves the children alone. -/
theorem flush_unreaped (laws : k.ChildLaws interpreter running) (m : Machine σ) :
    ((m.flush k).unreaped running).Perm (m.unreaped running) :=
  (Process.flush_keeps (laws.keeps (running m.world)) m.process (s := m.world) (.refl _)).append_left _

/-- So does the grant of a fork. -/
theorem granted_unreaped (laws : k.ChildLaws interpreter running) {m : Machine σ} {world : σ}
    (hfork : m.Grants k world) : ((m.granted k world).unreaped running).Perm (m.unreaped running) :=
  (granted_keeps (laws.keeps (running m.world)) hfork (.refl _)).append_left _

/-! ## Letting the programs go on -/

theorem foldl_observe_reapedPids (events : List Event) (m : Machine σ) :
    reapedPids (events.foldl observe m).outcomes = reapedPids m.outcomes ++ endedPids events := by
  induction events generalizing m with
  | nil => simp [endedPids]
  | cons event rest ih =>
    rw [List.foldl_cons, ih]
    cases event with
    | ended pid word => simp [observe, endedPids, Event.pid?]
    | signal number =>
      have : reapedPids (m.observe (.signal number)).outcomes = reapedPids m.outcomes := by
        unfold observe receive
        simp only
        cases m.disposition number with
        | ignored => rfl
        | remembered => simp
        | fatal => rfl
      rw [this]
      rfl
    | stuck => rfl

/-- Waiting fails for nothing but an interrupt, whatever has happened. -/
theorem foldl_observe_onlyInterrupted (events : List Event) {m : Machine σ}
    (h : OnlyInterrupted m.outcomes) : OnlyInterrupted (events.foldl observe m).outcomes := by
  induction events generalizing m with
  | nil => exact h
  | cons event rest ih =>
    refine ih fun errno hmem => ?_
    cases event with
    | ended pid word =>
      rcases List.mem_append.mp hmem with hmem | hmem
      · exact h errno hmem
      · exact absurd hmem (by simp)
    | signal number =>
      unfold observe receive at hmem
      simp only at hmem
      split at hmem
      · exact h errno hmem
      · rcases List.mem_append.mp hmem with hmem | hmem
        · exact h errno hmem
        · simpa using hmem
      · exact h errno hmem
    | stuck => exact h errno hmem

/-- An interpreter that is not halted by what happened met no fatal signal, and its wait was not stuck. -/
theorem foldl_observe_survived {events : List Event} {m : Machine σ}
    (h : (events.foldl observe m).halted = none) :
    m.halted = none ∧ (∀ number, .signal number ∈ events → m.disposition number ≠ .fatal) ∧
      .stuck ∉ events := by
  induction events generalizing m with
  | nil => exact ⟨h, by simp, by simp⟩
  | cons event rest ih =>
    obtain ⟨hhalted, hsignals, hstuck⟩ := ih h
    rw [(observe_frame m event).disposition] at hsignals
    have hstill {reason : Halt} : (m.halt reason).halted ≠ none := by
      unfold halt
      simp
    cases event with
    | ended pid word => exact ⟨hhalted, by simpa using hsignals, by simpa using hstuck⟩
    | signal number =>
      have hdisposition : m.disposition number ≠ .fatal := by
        intro hfatal
        unfold observe receive at hhalted
        simp only [hfatal] at hhalted
        exact hstill hhalted
      have hbefore : m.halted = none := by
        unfold observe receive at hhalted
        cases hd : m.disposition number with
        | fatal => exact absurd hd hdisposition
        | ignored => simpa only [hd] using hhalted
        | remembered => simpa only [hd] using hhalted
      refine ⟨hbefore, fun other hother => ?_, by simpa using hstuck⟩
      rcases List.mem_cons.mp hother with heq | hother
      · rw [Event.signal.inj heq]
        exact hdisposition
      · exact hsignals other hother
    | stuck => exact absurd hhalted hstill

theorem await_survived {m : Machine σ} (h : (m.await k).halted = none) : m.halted = none := by
  rw [await_eq] at h
  exact (foldl_observe_survived h).1

theorem await_onlyInterrupted (k : Kernel σ) {m : Machine σ} (h : OnlyInterrupted m.outcomes) :
    OnlyInterrupted (m.await k).outcomes := by
  rw [await_eq]
  exact foldl_observe_onlyInterrupted _ h

/-- **Letting the programs go on neither adds nor loses an unreaped child.** -/
theorem await_unreaped (laws : k.ChildLaws interpreter running) {m : Machine σ}
    (hpid : m.process.pid = interpreter) :
    ((m.await k).unreaped running).Perm (m.unreaped running) := by
  unfold unreaped
  rw [await_world, await_eq]
  simp only
  rw [foldl_observe_reapedPids, List.append_assoc]
  exact (laws.await _ m.process m.world hpid).append_left _

/-- **No program runs any more** after a wait that the interpreter survived. -/
theorem await_drained (laws : k.ChildLaws interpreter running) {m : Machine σ}
    (hpid : m.process.pid = interpreter) (h : (m.await k).halted = none) :
    running (m.await k).world = [] := by
  rw [await_world]
  rw [await_eq] at h
  obtain ⟨-, hsignals, hstuck⟩ := foldl_observe_survived h
  refine laws.drained _ m.process m.world hpid (fun number hnumber => ?_) hstuck
  have := hsignals number hnumber
  simpa using this

/-! ## The stages of a pipeline -/

/-- No unreaped child has the number of a child to come. -/
def Fresh (running : σ → List Pid) (m : Machine σ) : Prop :=
  ∀ pid ∈ m.unreaped running, pid < m.nextPid

/-- `m'` is `m` with children forked: they have the next numbers, and each of them is unreaped. -/
structure Grown (running : σ → List Pid) (m : Machine σ) (pids : List Pid) (m' : Machine σ) : Prop where
  pids_eq : pids = List.range' m.nextPid pids.length
  nextPid : m'.nextPid = m.nextPid + pids.length
  pid : m'.process.pid = m.process.pid
  interrupted : OnlyInterrupted m.outcomes → OnlyInterrupted m'.outcomes
  unreaped : (m'.unreaped running).Perm (pids ++ m.unreaped running)

namespace Grown

variable {m m' m'' : Machine σ} {pids pids' : List Pid}

theorem refl (m : Machine σ) : Grown running m [] m :=
  ⟨rfl, rfl, rfl, id, .refl _⟩

theorem trans (h : Grown running m pids m') (h' : Grown running m' pids' m'') :
    Grown running m (pids ++ pids') m'' where
  pids_eq := by
    rw [List.length_append, ← List.range'_append_1, ← h.pids_eq, ← h.nextPid, ← h'.pids_eq]
  nextPid := by rw [h'.nextPid, h.nextPid, List.length_append, Nat.add_assoc]
  pid := h'.pid.trans h.pid
  interrupted := fun hm => h'.interrupted (h.interrupted hm)
  unreaped := by
    refine h'.unreaped.trans ((h.unreaped.append_left pids').trans ?_)
    rw [← List.append_assoc]
    exact List.perm_append_comm.append_right _

theorem mem_pids (h : Grown running m pids m') {pid : Pid} :
    pid ∈ pids ↔ m.nextPid ≤ pid ∧ pid < m'.nextPid := by
  rw [h.pids_eq, List.mem_range'_1, h.nextPid]

theorem fresh (h : Grown running m pids m') (hm : m.Fresh running) : m'.Fresh running := by
  intro pid hpid
  rcases List.mem_append.mp (h.unreaped.mem_iff.mp hpid) with hpid | hpid
  · exact (h.mem_pids.mp hpid).2
  · have : pid < m.nextPid := hm pid hpid
    rw [h.nextPid]
    exact Nat.lt_of_lt_of_le this (Nat.le_add_right _ _)

theorem closeInput (h : Grown running m pids m') (input : Nat) :
    Grown running m pids (m'.closeInput input) := by
  unfold Machine.closeInput
  split
  · exact h
  · exact ⟨h.pids_eq, h.nextPid, h.pid, h.interrupted, h.unreaped⟩

theorem close (h : Grown running m pids m') (fd : Nat) : Grown running m pids (m'.close fd) :=
  ⟨h.pids_eq, h.nextPid, h.pid, h.interrupted, h.unreaped⟩

end Grown

/-- Flushing forks nothing. -/
theorem flush_grown (laws : k.ChildLaws interpreter running) (m : Machine σ) :
    Grown running m [] (m.flush k) :=
  ⟨rfl, rfl, flush_pid k m, id, flush_unreaped laws m⟩

theorem granted_grown (laws : k.ChildLaws interpreter running) {m : Machine σ} {world : σ}
    (hfork : m.Grants k world) : Grown running m [] (m.granted k world) :=
  ⟨rfl, rfl, granted_pid k world m, id, granted_unreaped laws hfork⟩

theorem fork_grown (laws : k.ChildLaws interpreter running)
    {body : Process → σ → ChildResult × Process × σ} (hbody : Accounts interpreter running body)
    {m : Machine σ} (hpid : m.process.pid = interpreter) (hfresh : m.Fresh running) :
    Grown running m [m.nextPid] (m.fork k body).2 where
  pids_eq := rfl
  nextPid := rfl
  pid := rfl
  interrupted := by
    intro h errno hmem
    rw [fork_eq] at hmem
    rcases List.mem_append.mp hmem with hmem | hmem
    · exact h errno hmem
    · generalize (Process.finish k _).1 = word at hmem
      cases word <;> simp at hmem
  unreaped := fork_unreaped laws hbody hpid fun h => Nat.lt_irrefl _ (hfresh _ h)

/-- A fork that is granted forks one child. -/
theorem forked_grown (laws : k.ChildLaws interpreter running)
    {body : Process → σ → ChildResult × Process × σ} (hbody : Accounts interpreter running body)
    {m : Machine σ} (hpid : m.process.pid = interpreter) (hfresh : m.Fresh running) {world : σ}
    (hfork : m.Grants k world) : Grown running m [m.nextPid] ((m.granted k world).fork k body).2 := by
  have hgranted := granted_grown laws hfork
  exact hgranted.trans (fork_grown laws hbody (hgranted.pid.trans hpid) (hgranted.fresh hfresh))

theorem openPipe_grown (laws : k.ChildLaws interpreter running) {m : Machine σ}
    {pipe : Process.PipeEnds} {process : Process} {world : σ}
    (h : m.process.openPipe k m.world = .ok (pipe, process, world)) :
    Grown running m [] { m with process, world } := by
  obtain ⟨_, table, hnew, rfl, -⟩ := Process.openPipe_eq_ok h
  exact ⟨rfl, rfl, rfl, id, (laws.newPipe hnew).append_left _⟩

/-- After so many of the stages of a pipeline were forked, the pipe of the next one cannot be made or its
fork is refused. -/
inductive CutOff (k : Kernel σ) (stages : List Command) (m : Machine σ) (forked : Nat) :
    ProcessError → Prop where
  | pipe {errno : Errno} (stopped : Machine σ) (before : forked + 1 < stages.length)
      (next : stopped.nextPid = m.nextPid + forked)
      (refused : stopped.process.openPipe k stopped.world = .error errno) :
      CutOff k stages m forked (.pipe errno)
  | fork {errno : Errno} (stopped : Machine σ) (before : forked < stages.length)
      (next : stopped.nextPid = m.nextPid + forked) (refused : stopped.Refuses k errno) :
      CutOff k stages m forked (.fork errno)

/-- One stage more was forked before. -/
theorem CutOff.succ {stage next : Command} {rest : List Command} {m passed : Machine σ} {forked : Nat}
    {e : ProcessError} (hnext : passed.nextPid = m.nextPid + 1)
    (h : CutOff k (next :: rest) passed forked e) : CutOff k (stage :: next :: rest) m (forked + 1) e := by
  have hshift : passed.nextPid + forked = m.nextPid + (forked + 1) := by
    rw [hnext, Nat.add_assoc, Nat.add_comm 1 forked]
  cases h with
  | pipe stopped before next refused =>
    exact .pipe stopped (Nat.succ_lt_succ before) (next.trans hshift) refused
  | fork stopped before next refused =>
    exact .fork stopped (Nat.succ_lt_succ before) (next.trans hshift) refused

/-- **Forking the stages of a pipeline forks one child for each**, or one for each before a pipe that
cannot be made or a fork that is refused. -/
theorem forkStages_grown (laws : k.ChildLaws interpreter running) {body : ChildBody σ}
    (hbody : ∀ words, Accounts interpreter running (body words)) (stages : List Command) (input : Nat)
    (m : Machine σ) (hpid : m.process.pid = interpreter) (hfresh : m.Fresh running) :
    let ran := m.forkStages k body stages input
    Grown running m ran.1 ran.2.2 ∧ (ran.2.1 = none → ran.1.length = stages.length) ∧
      ∀ e, ran.2.1 = some e → CutOff k stages m ran.1.length e := by
  induction stages, input, m using forkStages_induct k body with
  | nil input m =>
    rw [forkStages_nil]
    exact ⟨(Grown.refl m).closeInput input, fun _ => rfl, fun e h => absurd h (by simp)⟩
  | last stage input m world hfork =>
    rw [forkStages_last hfork]
    refine ⟨?_, fun _ => rfl, fun e h => absurd h (by simp)⟩
    exact (forked_grown laws (stageBody_accounts laws hbody stage input none) hpid hfresh
      hfork).closeInput input
  | lastRefused stage input m errno hfork =>
    rw [forkStages_last_refused hfork]
    refine ⟨(flush_grown laws m).closeInput input, fun h => absurd h (by simp), fun e h => ?_⟩
    obtain rfl := Option.some.inj h
    exact .fork m (by simp) rfl hfork
  | stop stage next rest input m errno hpipe =>
    rw [forkStages_stop hpipe]
    refine ⟨(Grown.refl m).closeInput input, fun h => absurd h (by simp), fun e h => ?_⟩
    obtain rfl := Option.some.inj h
    exact .pipe m (by simp) rfl hpipe
  | refused stage next rest input m pipe process made errno hpipe hfork =>
    have hopened := openPipe_grown laws hpipe
    rw [forkStages_refused hpipe hfork]
    refine ⟨?_, fun h => absurd h (by simp), fun e h => ?_⟩
    · exact ((hopened.trans (flush_grown laws _)).closeInput input |>.close pipe.read).close pipe.write
    · obtain rfl := Option.some.inj h
      exact .fork { m with process, world := made } (by simp) rfl hfork
  | pass stage next rest input m pipe process made world hpipe hfork ih =>
    have hopened := openPipe_grown laws hpipe
    have hforked := hopened.trans (forked_grown laws
      (stageBody_accounts laws hbody stage input (some pipe)) (hopened.pid.trans hpid)
      (hopened.fresh hfresh) hfork)
    have hpass : Grown running m [m.nextPid]
        (passStage k body stage input pipe world { m with process, world := made }) :=
      (hforked.closeInput input).close pipe.write
    obtain ⟨hgrown, hall, hstops⟩ := ih (hpass.pid.trans hpid) (hpass.fresh hfresh)
    rw [forkStages_pass hpipe hfork]
    refine ⟨hpass.trans hgrown, fun h => ?_, fun e h => ?_⟩
    · simp only [List.length_cons, hall h]
    · exact (hstops e h).succ hpass.nextPid

/-! ## Waiting -/

/-- `m'` is `m` with children reaped: none of these is unreaped any more, and of the others none that
was not. -/
structure Reaped (running : σ → List Pid) (m : Machine σ) (pids : List Pid) (m' : Machine σ) : Prop where
  gone : ∀ pid ∈ pids, pid ∉ m'.unreaped running
  rest : ∀ pid ∈ m'.unreaped running, pid ∈ m.unreaped running
  interrupted : OnlyInterrupted m'.outcomes

/-- The interpreter when it begins to look at outcomes: for no children it does not wait. -/
def awaited (k : Kernel σ) (pids : List Pid) (m : Machine σ) : Machine σ :=
  if pids = [] then m else m.await k

/-- Where the interpreter survives, all unreaped children are among the outcomes to come. -/
theorem await_unreaped_eq (laws : k.ChildLaws interpreter running) {m : Machine σ}
    (hpid : m.process.pid = interpreter) (hsurvived : (m.await k).halted = none) :
    (reapedPids (m.await k).outcomes).Perm (m.unreaped running) := by
  have := await_unreaped laws hpid
  unfold unreaped at this
  rw [await_drained laws hpid hsurvived, List.append_nil] at this
  exact this

/-- Outcomes that are kept leave no more children than were unreaped, and none of those that they do not
reap. -/
theorem Reaped.of_sublist (laws : k.ChildLaws interpreter running) {m : Machine σ}
    (hpid : m.process.pid = interpreter) (hfail : OnlyInterrupted m.outcomes)
    (hsurvived : (m.await k).halted = none) {pids : List Pid} {kept : List WaitOutcome}
    (hsub : kept.Sublist (m.await k).outcomes) (hgone : ∀ pid ∈ pids, pid ∉ reapedPids kept) :
    Reaped running m pids { m.await k with outcomes := kept } := by
  have hleft : unreaped running { m.await k with outcomes := kept } = reapedPids kept := by
    unfold unreaped
    simp only
    rw [await_drained laws hpid hsurvived, List.append_nil]
  refine ⟨fun pid hmem => ?_, fun pid hmem => ?_, (await_onlyInterrupted k hfail).of_sublist hsub⟩
  · rw [hleft]
    exact hgone pid hmem
  · rw [hleft] at hmem
    have hsub' : (reapedPids kept).Sublist (reapedPids (m.await k).outcomes) := hsub.filterMap _
    exact (await_unreaped_eq laws hpid hsurvived).mem_iff.mp (hsub'.subset hmem)

theorem waitAll_halted (k : Kernel σ) (pid : Pid) (pids : List Pid) (m : Machine σ) :
    (m.waitAll k (pid :: pids)).2.halted = (m.await k).halted := rfl

/-- Waiting for several children, where the outcomes to come are enough. -/
theorem waitAll_of_reap {k : Kernel σ} {pid : Pid} {pids : List Pid} {m : Machine σ}
    {result : Except Errno (List (Pid × Status))} {rest : List WaitOutcome}
    (h : reap (pid :: pids) ((m.await k).outcomes ++ [.failed .noChild]) =
      some (result, rest ++ [.failed .noChild])) :
    m.waitAll k (pid :: pids) = (result, { m.await k with outcomes := rest }) := by
  rw [waitAll_cons h]
  simp

/-- **Waiting for several children reaps each of them once**, where each was unreaped once. -/
theorem waitAll_reaps (laws : k.ChildLaws interpreter running) {m : Machine σ}
    (hpid : m.process.pid = interpreter) {pids : List Pid} (hnodup : pids.Nodup)
    (hcount : ∀ pid ∈ pids, (m.unreaped running).count pid = 1) (hfail : OnlyInterrupted m.outcomes)
    (hsurvived : (m.waitAll k pids).2.halted = none) :
    ∃ used, (m.awaited k pids).outcomes = used ++ (m.waitAll k pids).2.outcomes ∧
      (m.waitAll k pids).1 = .ok (endsOf pids used) ∧
      (∀ pid ∈ pids, (reapedPids used).count pid = 1) ∧
      Reaped running m pids (m.waitAll k pids).2 := by
  cases pids with
  | nil => exact ⟨[], rfl, rfl, by simp, by simp, fun _ h => h, hfail⟩
  | cons first others =>
    rw [waitAll_halted] at hsurvived
    have hperm := await_unreaped_eq laws hpid hsurvived
    have hfail' := await_onlyInterrupted k hfail
    obtain ⟨used, rest, hout, hreap, hused⟩ := reap_eq hnodup
      (fun pid hpid => (hperm.count_eq pid).trans (hcount pid hpid)) hfail' [.failed .noChild]
    rw [waitAll_of_reap hreap]
    have hsub : rest.Sublist (m.await k).outcomes := by
      rw [hout]
      exact List.sublist_append_right used rest
    refine ⟨used, hout, rfl, hused, Reaped.of_sublist laws hpid hfail hsurvived hsub ?_⟩
    intro pid hpid hmem
    have htotal := (hperm.count_eq pid).trans (hcount pid hpid)
    rw [hout, reapedPids_append, List.count_append, hused pid hpid] at htotal
    have := List.count_pos_iff.mpr hmem
    omega

/-- **Waiting for one child reaps it once**, where it was unreaped once. -/
theorem waitFor_reaps (laws : k.ChildLaws interpreter running) {m : Machine σ}
    (hpid : m.process.pid = interpreter) {pid : Pid} (hcount : (m.unreaped running).count pid = 1)
    (hfail : OnlyInterrupted m.outcomes) (hsurvived : (m.waitFor k pid).2.halted = none) :
    ∃ before word after, (m.await k).outcomes = before ++ .reaped pid word :: after ∧
      pid ∉ reapedPids before ∧ pid ∉ reapedPids after ∧
      (m.waitFor k pid).1 = .ok (.ofWord word) ∧
      (m.waitFor k pid).2.outcomes = before.filter (fun outcome => outcome.pid?.isSome) ++ after ∧
      Reaped running m [pid] (m.waitFor k pid).2 := by
  have hsurvived' : (m.await k).halted = none := hsurvived
  have hperm := await_unreaped_eq laws hpid hsurvived'
  have hfail' := await_onlyInterrupted k hfail
  have htotal := (hperm.count_eq pid).trans hcount
  have hmem : pid ∈ reapedPids (m.await k).outcomes :=
    List.count_pos_iff.mp (by rw [htotal]; exact Nat.one_pos)
  obtain ⟨before, word, after, hout, hbefore, hreap⟩ := reapOne_eq hmem hfail'
  have hafter : pid ∉ reapedPids after := by
    rw [hout, reapedPids_append, List.count_append, List.count_eq_zero.mpr hbefore, Nat.zero_add] at htotal
    exact not_mem_reapedPids (Nat.le_of_eq htotal)
  have hwait : m.waitFor k pid = (.ok (.ofWord word), { m.await k with
      outcomes := before.filter (fun outcome => outcome.pid?.isSome) ++ after }) := by
    unfold waitFor
    simp only
    rw [hreap]
  have hsub : (before.filter (fun outcome => outcome.pid?.isSome) ++ after).Sublist
      (m.await k).outcomes := by
    rw [hout]
    exact List.filter_sublist.append (List.sublist_cons_self _ after)
  refine ⟨before, word, after, hout, hbefore, hafter, by rw [hwait], by rw [hwait], ?_⟩
  rw [hwait]
  refine Reaped.of_sublist laws hpid hfail hsurvived' hsub fun other hother hkept => ?_
  obtain rfl := List.mem_singleton.mp hother
  rw [reapedPids_append, reapedPids_filter] at hkept
  exact (List.mem_append.mp hkept).elim hbefore hafter

end Machine

end

end LineShell
