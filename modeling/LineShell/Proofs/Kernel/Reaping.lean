import LineShell.Proofs.Kernel.Children

/-!
# Every child is reaped once

Whatever children do, in whatever order they end, and whatever else ends or interrupts while the
interpreter waits: what it forks for a line it reaps, each child once, before the line is over.

* `runPipeline_reaps`: a pipeline reaps exactly the children that it forked. Its status is that of its
  last stage's child; or, where a pipe could not be made or a fork was refused, it is that failure.
* `runSimple_reaps`: a single command reaps its child.
* `children_reaped`: both, and after a line no child that was forked for it is unreaped.

All this is about runs that the interpreter survives.
-/

namespace LineShell

variable {σ : Type u} {k : Kernel σ} {running : σ → List Pid}

namespace Machine

/-- Children that were forked, in a machine that was fresh before, are unreaped once each. -/
theorem Grown.count_unreaped {m m' : Machine σ} {pids : List Pid} (h : Grown running m pids m')
    (hfresh : m.Fresh running) : ∀ pid ∈ pids, (m'.unreaped running).count pid = 1 := by
  intro pid hpid
  have hold : pid ∉ m.unreaped running := fun hmem =>
    Nat.not_lt.mpr (h.mem_pids.mp hpid).1 (hfresh pid hmem)
  have hnodup : pids.Nodup := by
    rw [h.pids_eq]
    exact List.nodup_range'
  rw [h.unreaped.count_eq, List.count_append, List.count_eq_zero.mpr hold, hnodup.count, if_pos hpid]

/-- Children that were forked and then reaped leave no trace among the unreaped. -/
theorem Reaped.of_grown {m forked waited : Machine σ} {pids : List Pid}
    (hforked : Grown running m pids forked) (h : Reaped running forked pids waited) :
    ∀ pid ∈ waited.unreaped running, pid ∈ m.unreaped running := by
  intro pid hpid
  rcases List.mem_append.mp (hforked.unreaped.mem_iff.mp (h.rest pid hpid)) with hmem | hmem
  · exact absurd hpid (h.gone pid hmem)
  · exact hmem

/-- **A pipeline reaps each child that it forked once, and no other child that it was not left with.**
If every stage could be started there is a child for each, and the status is what became of the last one.
Otherwise there is one for each stage before that which could not, and the result is that failure. -/
theorem runPipeline_reaps {m : Machine σ} (laws : k.ChildLaws m.process.pid running)
    {body : ChildBody σ} (hbody : ∀ words, Accounts m.process.pid running (body words))
    (hfresh : m.Fresh running) (hfail : OnlyInterrupted m.outcomes) (stages : List Command)
    (hsurvived : (m.runPipeline k body stages).2.halted = none) :
    let forked := m.forkStages k body stages 0
    let ran := m.runPipeline k body stages
    Grown running m forked.1 forked.2.2 ∧
    ran.2.nextPid = forked.2.2.nextPid ∧
    ran.2.process.pid = m.process.pid ∧
    OnlyInterrupted ran.2.outcomes ∧
    (∀ pid ∈ ran.2.unreaped running, pid ∈ m.unreaped running) ∧
    ∃ used, (forked.2.2.awaited k forked.1).outcomes = used ++ ran.2.outcomes ∧
      (∀ pid ∈ forked.1, (reapedPids used).count pid = 1) ∧
      (forked.2.1 = none → stages ≠ [] → ∃ word,
        .reaped (m.nextPid + (stages.length - 1)) word ∈ used ∧ ran.1 = .ok (.ofWord word)) ∧
      ∀ e, forked.2.1 = some e → ran.1 = .error e := by
  obtain ⟨hgrown, hall, hstopped⟩ := forkStages_grown laws hbody stages 0 m rfl hfresh
  rw [runPipeline_eq] at hsurvived ⊢
  simp only at hsurvived ⊢
  generalize m.forkStages k body stages 0 = forked at *
  obtain ⟨pids, failure, m'⟩ := forked
  simp only at *
  have hnodup : pids.Nodup := by
    rw [hgrown.pids_eq]
    exact List.nodup_range'
  obtain ⟨used, hout, hresult, hused, hreaped⟩ := waitAll_reaps laws hgrown.pid hnodup
    (hgrown.count_unreaped hfresh) (hgrown.interrupted hfail) hsurvived
  have hframe := waitAll_frame k pids m'
  refine ⟨hgrown, hframe.nextPid, ?_, hreaped.interrupted, hreaped.of_grown hgrown, used, hout, hused,
    fun hnone hne => ?_, fun e he => ?_⟩
  · rw [hframe.process]
    exact hgrown.pid
  · have hlast : pids.getLast? = some (m.nextPid + (stages.length - 1)) := by
      have hlen := hall hnone
      have hpos : stages.length ≠ 0 := fun h => hne (List.length_eq_zero_iff.mp h)
      rw [hgrown.pids_eq, hlen, List.getLast?_range', if_neg hpos]
      exact congrArg some (Nat.add_sub_assoc (Nat.pos_of_ne_zero hpos) m.nextPid)
    have hmem := List.mem_of_getLast? hlast
    obtain ⟨word, hword⟩ := mem_reapedPids.mp (List.count_pos_iff.mp (by rw [hused _ hmem]; simp))
    refine ⟨word, hword, ?_⟩
    rw [hresult, hnone]
    exact congrArg Except.ok (pipelineStatus_endsOf hlast hword (hused _ hmem))
  · rw [hresult, he]
    rfl

/-- **A single command reaps its child once**: interrupts aside, it leaves all other outcomes as they
are. -/
theorem runSimple_reaps {m : Machine σ} (laws : k.ChildLaws m.process.pid running)
    {body : ChildBody σ} (hbody : ∀ words, Accounts m.process.pid running (body words))
    (hfresh : m.Fresh running) (hfail : OnlyInterrupted m.outcomes) (command : Command)
    (hsurvived : (m.runSimple k body command).2.halted = none) {world : σ} (hfork : m.Grants k world) :
    let forked := ((m.granted k world).fork k (body command.words)).2
    let ran := m.runSimple k body command
    ran.2.nextPid = m.nextPid + 1 ∧
    ran.2.process.pid = m.process.pid ∧
    OnlyInterrupted ran.2.outcomes ∧
    (∀ pid ∈ ran.2.unreaped running, pid ∈ m.unreaped running) ∧
    ∃ before word after,
      (forked.await k).outcomes = before ++ .reaped m.nextPid word :: after ∧
      m.nextPid ∉ reapedPids before ∧ m.nextPid ∉ reapedPids after ∧
      ran.1 = .ok (.ofWord word) ∧
      ran.2.outcomes = before.filter (fun outcome => outcome.pid?.isSome) ++ after := by
  intro forked ran
  have hran : ran = ((forked.waitFor k m.nextPid).1.mapError .wait, (forked.waitFor k m.nextPid).2) := by
    change m.runSimple k body command = _
    unfold runSimple
    rw [forkChild_granted hfork]
  have hgrown := forked_grown laws (hbody command.words) rfl hfresh hfork
  have hcount := hgrown.count_unreaped hfresh m.nextPid List.mem_cons_self
  change ran.2.halted = none at hsurvived
  rw [hran] at hsurvived
  obtain ⟨before, word, after, hout, hbefore, hafter, hresult, hrest, hreaped⟩ :=
    waitFor_reaps laws hgrown.pid hcount (hgrown.interrupted hfail) hsurvived
  have hframe := waitFor_frame k m.nextPid forked
  rw [hran]
  refine ⟨hframe.nextPid, ?_, hreaped.interrupted, hreaped.of_grown hgrown, before, word, after, hout,
    hbefore, hafter, ?_, hrest⟩
  · exact (congrArg Process.pid hframe.process).trans hgrown.pid
  · exact congrArg (·.mapError ProcessError.wait) hresult

/-- A single command that is refused its fork comes to that failure. -/
theorem runSimple_refused {k : Kernel σ} {body : ChildBody σ} {command : Command} {m : Machine σ}
    {errno : Errno} (hfork : m.Refuses k errno) :
    m.runSimple k body command = (.error (.fork errno), m.flush k) := by
  unfold runSimple
  rw [forkChild_refused hfork]

/-! ## Lines -/

/-- The interpreter with nothing of its own left to reap: all unreaped children have numbers below
`bound`, and those to come have none such. -/
structure Settled (interpreter : Pid) (running : σ → List Pid) (bound : Pid) (m : Machine σ) : Prop where
  pid : m.process.pid = interpreter
  bounded : bound ≤ m.nextPid
  interrupted : OnlyInterrupted m.outcomes
  unreaped : ∀ pid ∈ m.unreaped running, pid < bound

theorem Settled.fresh {interpreter bound : Pid} {m : Machine σ}
    (h : Settled interpreter running bound m) : m.Fresh running :=
  fun pid hpid => Nat.lt_of_lt_of_le (h.unreaped pid hpid) h.bounded

theorem Settled.complain {interpreter bound : Pid} (laws : k.ChildLaws interpreter running)
    {m : Machine σ} (h : Settled interpreter running bound m) (message : Text) :
    Settled interpreter running bound (m.complain k message) where
  pid := h.pid
  bounded := h.bounded
  interrupted := h.interrupted
  unreaped pid hpid := by
    have hwrite := Process.write_keeps (laws.keeps (running m.world)) m.process 2 (diagnostic message)
      (s := m.world) (.refl _)
    exact h.unreaped pid ((hwrite.append_left _).mem_iff.mp hpid)

theorem settle_halted (k : Kernel σ) (ran : Except ProcessError Status × Machine σ) :
    (settle k ran).2.halted = ran.2.halted := by
  obtain ⟨result, m⟩ := ran
  cases result <;> rfl

theorem Settled.settle {interpreter bound : Pid} (laws : k.ChildLaws interpreter running)
    {ran : Except ProcessError Status × Machine σ} (h : Settled interpreter running bound ran.2) :
    Settled interpreter running bound (settle k ran).2 := by
  obtain ⟨result, m⟩ := ran
  cases result with
  | ok status => exact h
  | error e => exact h.complain laws e.message

theorem waitAll_survived {k : Kernel σ} {pids : List Pid} {m : Machine σ}
    (h : (m.waitAll k pids).2.halted = none) : m.halted = none := by
  cases pids with
  | nil => exact h
  | cons pid pids =>
    rw [waitAll_halted] at h
    exact await_survived h

theorem runPipeline_survived {body : ChildBody σ} {stages : List Command} {m : Machine σ}
    (h : (m.runPipeline k body stages).2.halted = none) : m.halted = none := by
  rw [runPipeline_eq] at h
  rw [← forkStages_halted k body stages 0 m]
  exact waitAll_survived h

theorem runSimple_survived {body : ChildBody σ} {command : Command} {m : Machine σ}
    (h : (m.runSimple k body command).2.halted = none) : m.halted = none := by
  rcases grants_or_refuses k m with ⟨world, hfork⟩ | ⟨errno, hfork⟩
  · unfold runSimple at h
    rw [forkChild_granted hfork] at h
    exact await_survived (m := ((m.granted k world).fork k (body command.words)).2) h
  · rw [runSimple_refused hfork] at h
    exact h

theorem Settled.flush {interpreter bound : Pid} (laws : k.ChildLaws interpreter running)
    {m : Machine σ} (h : Settled interpreter running bound m) :
    Settled interpreter running bound (m.flush k) where
  pid := (flush_pid k m).trans h.pid
  bounded := h.bounded
  interrupted := h.interrupted
  unreaped pid hpid := h.unreaped pid ((flush_unreaped laws m).mem_iff.mp hpid)

/-- What a launch leaves of an interpreter that survives it has nothing of its own left to reap. -/
theorem launcher_preserves_settled {interpreter bound : Pid} (laws : k.ChildLaws interpreter running)
    {body : ChildBody σ} (hbody : ∀ words, Accounts interpreter running (body words)) :
    (launcher k body).Preserves fun m => m.halted = none → Settled interpreter running bound m where
  command command m hm hhalted := by
    change (settle k (m.runSimple k body command)).2.halted = none at hhalted
    rw [settle_halted] at hhalted
    have h := hm (runSimple_survived hhalted)
    obtain rfl := h.pid
    rcases grants_or_refuses k m with ⟨world, hfork⟩ | ⟨errno, hfork⟩
    · obtain ⟨hnext, hpid, hfail, hunreaped, -⟩ :=
        runSimple_reaps laws hbody h.fresh h.interrupted command hhalted hfork
      refine Settled.settle laws ⟨hpid, ?_, hfail, fun pid hmem => h.unreaped pid (hunreaped pid hmem)⟩
      rw [hnext]
      exact Nat.le_succ_of_le h.bounded
    · refine Settled.settle laws ?_
      rw [runSimple_refused hfork]
      exact h.flush laws
  pipeline stages m hm hhalted := by
    change (settle k (m.runPipeline k body stages)).2.halted = none at hhalted
    rw [settle_halted] at hhalted
    have h := hm (runPipeline_survived hhalted)
    obtain rfl := h.pid
    obtain ⟨hgrown, hnext, hpid, hfail, hunreaped, -⟩ :=
      runPipeline_reaps laws hbody h.fresh h.interrupted stages hhalted
    refine Settled.settle laws ⟨hpid, ?_, hfail, fun pid hmem => h.unreaped pid (hunreaped pid hmem)⟩
    rw [hnext, hgrown.nextPid]
    exact Nat.le_add_right_of_le h.bounded

/-- What a pipeline comes to, in terms of the children that it forked. -/
structure PipelineReaped (k : Kernel σ) (running : σ → List Pid) (stages : List Command)
    (m : Machine σ) (forked : List Pid × Option ProcessError × Machine σ)
    (ran : Except ProcessError Status × Machine σ) : Prop where
  /-- The children have the next numbers, and no others were forked. -/
  children : forked.1 = List.range' m.nextPid forked.1.length
  nextPid : ran.2.nextPid = m.nextPid + forked.1.length
  /-- Of the outcomes to come some were used up, and these reap each child once. -/
  once : ∃ used, (forked.2.2.awaited k forked.1).outcomes = used ++ ran.2.outcomes ∧
    (∀ pid ∈ forked.1, (reapedPids used).count pid = 1) ∧
    (forked.2.1 = none → ∃ word,
      .reaped (m.nextPid + (stages.length - 1)) word ∈ used ∧ ran.1 = .ok (.ofWord word))
  /-- No child is left that was not there before. -/
  left : ∀ pid ∈ ran.2.unreaped running, pid ∈ m.unreaped running
  /-- If every stage could be started, there was a child for each. -/
  all : forked.2.1 = none → forked.1.length = stages.length
  /-- Otherwise there was one for every stage before the pipe that could not be made or the fork that was
  refused, and a line of these stages counts as a failed command. -/
  stopped : ∀ e, forked.2.1 = some e → CutOff k stages m forked.1.length e ∧ ran.1 = .error e ∧
    ((Line.pipeline stages).run (launcher k (commandBody k)) m).1 = .exited 1

/-- What a single command comes to, in terms of its child, if there is one. -/
structure CommandReaped (k : Kernel σ) (running : σ → List Pid) (command : Command) (m : Machine σ)
    (ran : Except ProcessError Status × Machine σ) : Prop where
  /-- One outcome reaps the child; of the others only interrupts before it were used up. -/
  once : ∀ world, m.Grants k world → ran.2.nextPid = m.nextPid + 1 ∧
    ∃ before word after,
      (((m.granted k world).fork k (commandBody k command.words)).2.await k).outcomes =
        before ++ .reaped m.nextPid word :: after ∧
      m.nextPid ∉ reapedPids before ∧ m.nextPid ∉ reapedPids after ∧ ran.1 = .ok (.ofWord word) ∧
      ran.2.outcomes = before.filter (fun outcome => outcome.pid?.isSome) ++ after
  /-- A fork that is refused makes no child, and nothing is waited for. -/
  refused : ∀ errno, m.Refuses k errno → ran.1 = .error (.fork errno) ∧ ran.2.nextPid = m.nextPid ∧
    ran.2.outcomes = m.outcomes
  /-- No child is left that was not there before. -/
  left : ∀ pid ∈ ran.2.unreaped running, pid ∈ m.unreaped running

/-- **Every child is reaped exactly once, whatever the schedule**, and the status of a pipeline is that of
its last stage; after a line, no child that was forked for it is left unreaped. The interpreter is
supposed to be left with no unreaped child whose number is still to be given to another, and to survive
the run. -/
theorem children_reaped {m : Machine σ} (laws : k.ChildLaws m.process.pid running)
    (hfresh : m.Fresh running) (hfail : OnlyInterrupted m.outcomes) :
    (∀ stages ≠ [], (m.runPipeline k (commandBody k) stages).2.halted = none →
      PipelineReaped k running stages m (m.forkStages k (commandBody k) stages 0)
        (m.runPipeline k (commandBody k) stages)) ∧
    (∀ command : Command, (m.runSimple k (commandBody k) command).2.halted = none →
      CommandReaped k running command m (m.runSimple k (commandBody k) command)) ∧
    ∀ line : Line, (line.run (launcher k (commandBody k)) m).2.halted = none →
      m.nextPid ≤ (line.run (launcher k (commandBody k)) m).2.nextPid ∧
      ∀ pid ∈ (line.run (launcher k (commandBody k)) m).2.unreaped running, pid < m.nextPid := by
  have hbody := commandBody_accounts laws
  refine ⟨fun stages hne hsurvived => ?_, fun command hsurvived => ?_, fun line hsurvived => ?_⟩
  · obtain ⟨-, hall, hstops⟩ := forkStages_grown laws hbody stages 0 m rfl hfresh
    obtain ⟨hgrown, hnext, -, -, hleft, used, hout, hused, hlast, herror⟩ :=
      runPipeline_reaps laws hbody hfresh hfail stages hsurvived
    refine ⟨hgrown.pids_eq, hnext.trans hgrown.nextPid, ⟨used, hout, hused, fun h => hlast h hne⟩, hleft,
      hall, fun e h => ⟨hstops e h, herror e h, ?_⟩⟩
    have herr := herror e h
    change (settle k (m.runPipeline k (commandBody k) stages)).1 = .exited 1
    generalize m.runPipeline k (commandBody k) stages = ran at herr ⊢
    obtain ⟨result, m'⟩ := ran
    obtain rfl := herr
    rfl
  · rcases grants_or_refuses k m with ⟨world, hfork⟩ | ⟨errno, hfork⟩
    · refine ⟨fun other hother => ?_, fun errno hrefused => ?_, ?_⟩
      · obtain ⟨hnext, -, -, -, honce⟩ :=
          runSimple_reaps laws hbody hfresh hfail command hsurvived hother
        exact ⟨hnext, honce⟩
      · exact absurd (hfork.symm.trans hrefused) (by simp)
      · obtain ⟨-, -, -, hleft, -⟩ := runSimple_reaps laws hbody hfresh hfail command hsurvived hfork
        exact hleft
    · refine ⟨fun world hgranted => absurd (hfork.symm.trans hgranted) (by simp), fun other hother => ?_, ?_⟩
      · rw [runSimple_refused hother]
        exact ⟨rfl, rfl, rfl⟩
      · rw [runSimple_refused hfork]
        exact fun pid hmem => (flush_unreaped laws m).mem_iff.mp hmem
  · have hstart : m.halted = none → Settled m.process.pid running m.nextPid m :=
      fun _ => ⟨rfl, Nat.le_refl _, hfail, hfresh⟩
    have hend := Line.run_preserves (launcher_preserves_settled laws hbody) line hstart hsurvived
    exact ⟨hend.bounded, hend.unreaped⟩

/-- Three stages whose programs end last one first, with interrupts between them, while a child that was
there before ends as well; and three of which the last is refused its fork while the two others run. -/
theorem children_reaped_last_first :
    let stages : List Command := [⟨[['a']]⟩, ⟨[['b']]⟩, ⟨[['c']]⟩]
    let beside := Bench.machine 2 [5]
    let alone := Bench.machine 2 []
    let crowded := Kernel.crowded 2
    (beside.Fresh Bench.running ∧
      PipelineReaped .bench Bench.running stages beside
        (beside.forkStages .bench (commandBody .bench) stages 0)
        (beside.runPipeline .bench (commandBody .bench) stages) ∧
      (beside.runPipeline .bench (commandBody .bench) stages).1 = .ok (.exited 12)) ∧
    alone.Fresh Bench.running ∧
      PipelineReaped crowded Bench.running stages alone
        (alone.forkStages crowded (commandBody crowded) stages 0)
        (alone.runPipeline crowded (commandBody crowded) stages) ∧
      (alone.forkStages crowded (commandBody crowded) stages 0).1 = [10, 11] ∧
      (alone.runPipeline crowded (commandBody crowded) stages).1 = .error (.fork .tryAgain) := by
  have hbeside : (Bench.machine 2 [5]).Fresh Bench.running := by
    unfold Fresh
    decide
  have halone : (Bench.machine 2 []).Fresh Bench.running := by
    unfold Fresh
    decide
  obtain ⟨hreaped, -⟩ := children_reaped (Kernel.bench_childLaws 2) hbeside
    (by simp [OnlyInterrupted, Bench.machine])
  obtain ⟨hdrained, -⟩ := children_reaped (Kernel.crowded_childLaws 2 2) halone
    (by simp [OnlyInterrupted, Bench.machine])
  exact ⟨⟨hbeside, hreaped _ (by simp) rfl, rfl⟩, halone, hdrained _ (by simp) rfl, rfl, rfl⟩

end Machine

end LineShell
