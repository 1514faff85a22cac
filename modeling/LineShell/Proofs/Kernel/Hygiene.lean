import LineShell.Kernel.Host
import LineShell.Proofs.Kernel.Laws
import LineShell.Proofs.Kernel.Stage
import LineShell.Proofs.Session.Dispatches

/-!
# The interpreter's own descriptors

Whatever it runs, and whatever becomes of its pipes, the interpreter ends up with the descriptors it
began with.

* `forkStages_same`: after forking the stages of a pipeline, all of them or only those before a pipe
  that could not be made or a fork that was refused, the interpreter's table is what it was.
* `forkStagesGuarded` forks stages like `forkStages`, but has no result as soon as the interpreter puts
  a pipe over a descriptor that is open, or closes one that is not open, or one that was open at the
  beginning. `forkStagesGuarded_eq`: it always has a result, and the same.
* `table_unchanged`: from there, through a whole pipeline, a line, and a sequence of dispatches.

Table equality here is `Table.Same`: the same numbers open, leading to the same, under the same bound.
-/

namespace LineShell

variable {σ : Type u}

namespace Machine

/-! ## Pipelines -/

/-- After the stages of a pipeline were forked, the interpreter's table is what it was at the
beginning, whether or not they all were. -/
theorem forkStages_same {base : Table} (hopen : base.StandardOpen) (k : Kernel σ) (body : ChildBody σ)
    (stages : List Command) (input : Nat) (m : Machine σ) {source : Option Nat}
    (h : Between base input source m.process.table) :
    (m.forkStages k body stages input).2.2.process.table.Same base := by
  induction stages, input, m using forkStages_induct k body generalizing source with
  | nil input m =>
    rw [forkStages_nil, closeInput_table]
    exact h.done hopen
  | last stage input m world hfork =>
    rw [forkStages_last hfork, startStage_table]
    exact h.done hopen
  | lastRefused stage input m errno hfork =>
    rw [forkStages_last_refused hfork, closeInput_table, flush_table]
    exact h.done hopen
  | stop stage next rest input m errno hpipe =>
    rw [forkStages_stop hpipe, closeInput_table]
    exact h.done hopen
  | refused stage next rest input m pipe process made errno hpipe hfork =>
    obtain ⟨id, table, -, rfl, hopened⟩ := Process.openPipe_eq_ok hpipe
    rw [forkStages_refused hpipe hfork, dropStage_table]
    exact h.dropped hopen hopened
  | pass stage next rest input m pipe process made world hpipe hfork ih =>
    obtain ⟨id, table, -, rfl, hopened⟩ := Process.openPipe_eq_ok hpipe
    rw [forkStages_pass hpipe hfork]
    exact ih (h.passStage hopen hopened k body stage world)

/-- Closes a descriptor, if it is open and was not open at the beginning. -/
def closeOwn (base : Table) (fd : Nat) (m : Machine σ) : Option (Machine σ) :=
  if m.process.table.get? fd ≠ none ∧ base.get? fd = none then some (m.close fd) else none

/-- Closes the descriptor that the next stage would have read from, if it is a pipe's. -/
def closeOwnInput (base : Table) (input : Nat) (m : Machine σ) : Option (Machine σ) :=
  if input = 0 then some m else m.closeOwn base input

/-- Closes both ends of a pipe. -/
def closeOwnPipe (base : Table) (pipe : Process.PipeEnds) (m : Machine σ) : Option (Machine σ) :=
  (m.closeOwn base pipe.read).bind fun m => m.closeOwn base pipe.write

/-- Forks the child of a stage like `forkStage`, but only if what is closed is open and was not open at
the beginning. -/
def forkStageGuarded (k : Kernel σ) (body : ChildBody σ) (base : Table) (stage : Command) (input : Nat)
    (pipe : Option Process.PipeEnds) (m : Machine σ) : Option (Except ProcessError Pid × Machine σ) :=
  let (forked, m) := m.forkChild k (stageBody k body stage input pipe)
  (m.closeOwnInput base input).bind fun m =>
    match forked, pipe with
    | .ok pid, _ => some (.ok pid, m)
    | .error errno, none => some (.error (.fork errno), m)
    | .error errno, some pipe => (m.closeOwnPipe base pipe).map fun m => (.error (.fork errno), m)

/-- Forks the stages of a pipeline like `forkStages`, but only as long as pipes are put at free
numbers, and what is closed is open and was not open at the beginning. -/
def forkStagesGuarded (k : Kernel σ) (body : ChildBody σ) (base : Table) :
    List Command → Nat → Machine σ → Option (List Pid × Option ProcessError × Machine σ)
  | [], input, m => (m.closeOwnInput base input).map fun m => ([], none, m)
  | [last], input, m =>
    (m.forkStageGuarded k body base last input none).map fun
      | (.error e, m) => ([], some e, m)
      | (.ok pid, m) => ([pid], none, m)
  | stage :: next :: rest, input, m =>
    match m.process.openPipe k m.world with
    | .error errno => (m.closeOwnInput base input).map fun m => ([], some (.pipe errno), m)
    | .ok (pipe, process, world) =>
      if m.process.table.get? pipe.read = none ∧ m.process.table.get? pipe.write = none then
        ({ m with process, world }.forkStageGuarded k body base stage input (some pipe)).bind fun
          | (.error e, m) => some ([], some e, m)
          | (.ok pid, m) =>
            (m.closeOwn base pipe.write).bind fun m =>
              (forkStagesGuarded k body base (next :: rest) pipe.read m).map fun (pids, failure, m) =>
                (pid :: pids, failure, m)
      else none

theorem closeOwn_eq {base : Table} {fd : Nat} {m : Machine σ} (hopen : m.process.table.get? fd ≠ none)
    (hfree : base.get? fd = none) : m.closeOwn base fd = some (m.close fd) := by
  unfold closeOwn
  rw [if_pos ⟨hopen, hfree⟩]

/-- The descriptor between two stages is the interpreter's own. -/
theorem closeOwnInput_eq {base : Table} {input : Nat} {m : Machine σ}
    (h : input = 0 ∨ m.process.table.get? input ≠ none ∧ base.get? input = none) :
    m.closeOwnInput base input = some (m.closeInput input) := by
  unfold closeOwnInput closeInput
  by_cases h0 : input = 0
  · rw [if_pos h0, if_pos h0]
  · obtain ⟨hopen, hfree⟩ := h.resolve_left h0
    rw [if_neg h0, if_neg h0, closeOwn_eq hopen hfree]

/-- A child that is forked takes over only what is the interpreter's own. -/
theorem forkStageGuarded_granted {base : Table} {k : Kernel σ} {body : ChildBody σ} {stage : Command}
    {input : Nat} {pipe : Option Process.PipeEnds} {m : Machine σ} {world : σ} (hfork : m.Grants k world)
    (hinput : input = 0 ∨ m.process.table.get? input ≠ none ∧ base.get? input = none) :
    m.forkStageGuarded k body base stage input pipe =
      some (.ok m.nextPid, m.startStage k body stage input pipe world) := by
  unfold forkStageGuarded
  rw [forkChild_granted hfork]
  simp only
  rw [closeOwnInput_eq (by rw [fork_process, granted_table]; exact hinput)]
  rfl

/-- A fork that is refused before the last stage leaves nothing but what is the interpreter's own. -/
theorem forkStageGuarded_refused {base : Table} {k : Kernel σ} {body : ChildBody σ} {stage : Command}
    {input : Nat} {m : Machine σ} {errno : Errno} (hfork : m.Refuses k errno)
    (hinput : input = 0 ∨ m.process.table.get? input ≠ none ∧ base.get? input = none) :
    m.forkStageGuarded k body base stage input none =
      some (.error (.fork errno), (m.flush k).closeInput input) := by
  unfold forkStageGuarded
  rw [forkChild_refused hfork]
  simp only
  rw [closeOwnInput_eq (by rw [flush_table]; exact hinput)]
  rfl

/-- **A fork that is refused has both ends of its pipe closed**, each once. -/
theorem forkStageGuarded_dropped {base : Table} {k : Kernel σ} {body : ChildBody σ} {stage : Command}
    {input : Nat} {pipe : Process.PipeEnds} {m : Machine σ} {errno : Errno} (hfork : m.Refuses k errno)
    (hinput : input = 0 ∨ m.process.table.get? input ≠ none ∧ base.get? input = none)
    (hapart : pipe.read ≠ pipe.write)
    (hread : (if input = 0 then m.process.table else m.process.table.close input).get? pipe.read ≠ none ∧
      base.get? pipe.read = none)
    (hwrite : (if input = 0 then m.process.table else m.process.table.close input).get? pipe.write ≠ none ∧
      base.get? pipe.write = none) :
    m.forkStageGuarded k body base stage input (some pipe) =
      some (.error (.fork errno), m.dropStage k input pipe) := by
  unfold forkStageGuarded
  rw [forkChild_refused hfork]
  simp only
  rw [closeOwnInput_eq (by rw [flush_table]; exact hinput), Option.bind_some]
  unfold closeOwnPipe
  rw [closeOwn_eq (by rw [closeInput_table, flush_table]; exact hread.1) hread.2, Option.bind_some,
    closeOwn_eq (by
      rw [close_table, closeInput_table, flush_table, Table.get?_close, if_neg (Ne.symm hapart)]
      exact hwrite.1) hwrite.2]
  rfl

/-- **No descriptor is closed that the interpreter had at the beginning, and none that is not open**;
so no end of a pipe is closed twice. -/
theorem forkStagesGuarded_eq {base : Table} (hopen : base.StandardOpen) (k : Kernel σ)
    (body : ChildBody σ) (stages : List Command) (input : Nat) (m : Machine σ) {source : Option Nat}
    (h : Between base input source m.process.table) :
    m.forkStagesGuarded k body base stages input = some (m.forkStages k body stages input) := by
  induction stages, input, m using forkStages_induct k body generalizing source with
  | nil input m =>
    rw [forkStagesGuarded, closeOwnInput_eq h.own, forkStages_nil]
    rfl
  | last stage input m world hfork =>
    rw [forkStagesGuarded, forkStageGuarded_granted hfork h.own, forkStages_last hfork]
    rfl
  | lastRefused stage input m errno hfork =>
    rw [forkStagesGuarded, forkStageGuarded_refused hfork h.own, forkStages_last_refused hfork]
    rfl
  | stop stage next rest input m errno hpipe =>
    rw [forkStagesGuarded, hpipe, forkStages_stop hpipe]
    simp only
    rw [closeOwnInput_eq h.own]
    rfl
  | refused stage next rest input m pipe process made errno hpipe hfork =>
    obtain ⟨id, table, -, rfl, hopened⟩ := Process.openPipe_eq_ok hpipe
    have hinput : input = 0 ∨ table.get? input ≠ none ∧ base.get? input = none :=
      h.own.imp_right fun ⟨hslot, hfree⟩ => ⟨hopened.get?_of_open hslot ▸ hslot, hfree⟩
    rw [forkStagesGuarded, hpipe, forkStages_refused hpipe hfork]
    simp only
    rw [if_pos ⟨hopened.readFree, hopened.writeFree⟩,
      forkStageGuarded_dropped hfork hinput hopened.apart (h.own_read hopen hopened)
        (h.own_write hopen hopened)]
    rfl
  | pass stage next rest input m pipe process made world hpipe hfork ih =>
    obtain ⟨id, table, -, rfl, hopened⟩ := Process.openPipe_eq_ok hpipe
    have hinput : input = 0 ∨ table.get? input ≠ none ∧ base.get? input = none :=
      h.own.imp_right fun ⟨hslot, hfree⟩ => ⟨hopened.get?_of_open hslot ▸ hslot, hfree⟩
    obtain ⟨hwrite, hfree⟩ := h.own_write hopen hopened
    rw [forkStagesGuarded, hpipe, forkStages_pass hpipe hfork]
    simp only
    rw [if_pos ⟨hopened.readFree, hopened.writeFree⟩, forkStageGuarded_granted hfork hinput,
      Option.bind_some]
    simp only
    rw [closeOwn_eq (by rw [startStage_table]; exact hwrite) hfree, Option.bind_some]
    have hrest := ih (h.passStage hopen hopened k body stage world)
    unfold passStage at hrest ⊢
    rw [hrest]
    rfl

theorem runPipeline_same {m : Machine σ} (hopen : m.process.table.StandardOpen) (k : Kernel σ)
    (body : ChildBody σ) (stages : List Command) :
    (m.runPipeline k body stages).2.process.table.Same m.process.table := by
  rw [runPipeline_eq]
  simp only
  rw [(waitAll_frame k _ _).process]
  exact forkStages_same hopen k body stages 0 m (.first (.refl _))

theorem runSimple_table (k : Kernel σ) (body : ChildBody σ) (command : Command) (m : Machine σ) :
    (m.runSimple k body command).2.process.table = m.process.table := by
  unfold runSimple
  rcases grants_or_refuses k m with ⟨world, hfork⟩ | ⟨errno, hfork⟩
  · rw [forkChild_granted hfork]
    simp only
    rw [(waitFor_frame k _ _).process, fork_process, granted_table]
  · rw [forkChild_refused hfork]
    exact flush_table k m

/-! ## Lines and sessions -/

/-- Nothing that a session has its host do changes the interpreter's descriptors. -/
theorem host_preserves_table {base : Table} (hopen : base.StandardOpen) (k : Kernel σ)
    (body : ChildBody σ) : (host k body).Preserves fun m => m.process.table.Same base where
  command command m h := by
    change (settle k (m.runSimple k body command)).2.process.table.Same base
    rw [settle_process, runSimple_table]
    exact h
  pipeline stages m h := by
    change (settle k (m.runPipeline k body stages)).2.process.table.Same base
    rw [settle_process]
    exact (runPipeline_same (h.standardOpen hopen) k body stages).trans h
  setInterrupted _ m h := h
  print bytes m h := by
    change (m.print k bytes).process.table.Same base
    rw [print_table]
    exact h
  output :=
    { write := fun bytes m h => by
        change (m.writeOut k bytes).2.process.table.Same base
        rw [writeOut_table]
        exact h
      flush := fun m h => by
        change (m.flush k).process.table.Same base
        rw [flush_table]
        exact h }
  complain _ m h := h

/-- **The interpreter's descriptors are what they were**, whatever the stages of a pipeline are, and
whether or not all its pipes could be made and all its stages be forked; and so they are after every line
and every sequence of dispatches. While stages are forked, no descriptor that was open before is closed or
put to another use, and none is closed that is not open. -/
theorem table_unchanged {m : Machine σ} (hopen : m.process.table.StandardOpen) (k : Kernel σ)
    (body : ChildBody σ) :
    (∀ stages,
      m.forkStagesGuarded k body m.process.table stages 0 = some (m.forkStages k body stages 0) ∧
      (m.runPipeline k body stages).2.process.table.Same m.process.table) ∧
    (∀ line : Line, (line.run (launcher k body) m).2.process.table.Same m.process.table) ∧
    ∀ (lines : List (Text × Bool)) (s : Session),
      (Session.dispatchAll (host k body) lines s m).2.process.table.Same m.process.table := by
  have hpreserves := host_preserves_table hopen k body
  refine ⟨fun stages => ⟨?_, runPipeline_same hopen k body stages⟩, fun line => ?_, fun lines s => ?_⟩
  · exact forkStagesGuarded_eq hopen k body stages 0 m (.first (.refl _))
  · exact Line.run_preserves hpreserves.toPreserves line (.refl _)
  · exact Session.dispatchAll_preserves hpreserves lines s (.refl _)

/-- Three stages, of which the second finds no pipe left; and three of which the second gets a pipe, but
is refused its fork while the first one runs. -/
theorem table_unchanged_refused :
    let stages : List Command := [⟨[['a']]⟩, ⟨[['b']]⟩, ⟨[['c']]⟩]
    let poor := Bench.machine 1 []
    let rich := Bench.machine 9 []
    let crowded := Kernel.crowded 1
    (poor.process.table.StandardOpen ∧
      (poor.runPipeline .bench (commandBody .bench) stages).1 = .error (.pipe .tooManyOpen) ∧
      (poor.runPipeline .bench (commandBody .bench) stages).2.process.table.Same poor.process.table) ∧
    rich.process.table.StandardOpen ∧
      (rich.runPipeline crowded (commandBody crowded) stages).1 = .error (.fork .tryAgain) ∧
      (rich.runPipeline crowded (commandBody crowded) stages).2.world.made = 2 ∧
      (rich.runPipeline crowded (commandBody crowded) stages).2.process.table.Same rich.process.table := by
  intro stages poor rich crowded
  obtain ⟨hpoor, -⟩ := table_unchanged (m := poor) (by decide) .bench (commandBody .bench)
  obtain ⟨hrich, -⟩ := table_unchanged (m := rich) (by decide) crowded (commandBody crowded)
  exact ⟨⟨by decide, rfl, (hpoor stages).2⟩, by decide, rfl, rfl, (hrich stages).2⟩

end Machine

end LineShell
