import LineShell.Kernel.Pipeline

/-!
# What the interpreter's operations leave alone

Each operation of a `Machine` changes a few of its fields. Here is, for each, what it does to the
fields that later arguments follow: the interpreter's process (its descriptor table above all), the
number of the next child, and what signals do to it. `Machine.Frame` collects what nothing but a fork
and a pipe changes.

A fork is granted or refused (`Grants`, `Refuses`); `forkStages_induct` has one case for each way in which
the loop over the stages of a pipeline may go on or end.
-/

namespace LineShell

variable {σ : Type u}

/-- Flushing changes nothing of a process but the output that is printed and not yet written. -/
theorem Process.flush_fst (k : Kernel σ) (p : Process) (s : σ) :
    (p.flush k s).1 = { p with output := (p.flush k s).1.output } := by
  unfold Process.flush
  split <;> rfl

namespace Machine

/-! ## Waiting -/

/-- Two machines have the same process, number of the next child and dispositions. -/
structure Frame (m m' : Machine σ) : Prop where
  process : m'.process = m.process
  nextPid : m'.nextPid = m.nextPid
  disposition : m'.disposition = m.disposition

theorem Frame.refl (m : Machine σ) : Frame m m := ⟨rfl, rfl, rfl⟩

theorem Frame.trans {m m' m'' : Machine σ} (h : Frame m m') (h' : Frame m' m'') : Frame m m'' :=
  ⟨h'.process.trans h.process, h'.nextPid.trans h.nextPid, h'.disposition.trans h.disposition⟩

theorem receive_frame (signal : Nat) (m : Machine σ) : Frame m (m.receive signal) := by
  unfold receive
  split <;> exact ⟨rfl, rfl, rfl⟩

theorem observe_frame (m : Machine σ) (event : Event) : Frame m (m.observe event) := by
  cases event with
  | ended pid word => exact ⟨rfl, rfl, rfl⟩
  | signal number => exact receive_frame number m
  | stuck => exact ⟨rfl, rfl, rfl⟩

theorem foldl_observe_frame (events : List Event) (m : Machine σ) :
    Frame m (events.foldl observe m) := by
  induction events generalizing m with
  | nil => exact .refl m
  | cons event rest ih => exact (observe_frame m event).trans (ih _)

/-- Waiting, as one fold over what happened. -/
theorem await_eq (k : Kernel σ) (m : Machine σ) :
    m.await k =
      let happened := k.await (fun signal => m.disposition signal == .fatal) m.process m.world
      happened.1.foldl observe { m with world := happened.2 } := rfl

theorem await_frame (k : Kernel σ) (m : Machine σ) : Frame m (m.await k) := by
  rw [await_eq]
  refine Frame.trans ?_ (foldl_observe_frame _ _)
  exact ⟨rfl, rfl, rfl⟩

theorem foldl_observe_world (events : List Event) (m : Machine σ) :
    (events.foldl observe m).world = m.world := by
  induction events generalizing m with
  | nil => rfl
  | cons event rest ih =>
    rw [List.foldl_cons, ih]
    cases event with
    | ended pid word => rfl
    | signal number =>
      unfold observe receive
      simp only
      split <;> rfl
    | stuck => rfl

theorem await_world (k : Kernel σ) (m : Machine σ) :
    (m.await k).world =
      (k.await (fun signal => m.disposition signal == .fatal) m.process m.world).2 := by
  rw [await_eq]
  simp only
  rw [foldl_observe_world]

/-- An event only adds to the outcomes of waiting. -/
theorem observe_outcomes (m : Machine σ) (event : Event) :
    ∃ more, (m.observe event).outcomes = m.outcomes ++ more := by
  cases event with
  | ended pid word => exact ⟨_, rfl⟩
  | signal number =>
    unfold observe receive
    simp only
    split
    · exact ⟨[], (List.append_nil _).symm⟩
    · exact ⟨_, rfl⟩
    · exact ⟨[], (List.append_nil _).symm⟩
  | stuck => exact ⟨[], (List.append_nil _).symm⟩

theorem foldl_observe_outcomes (events : List Event) (m : Machine σ) :
    ∃ more, (events.foldl observe m).outcomes = m.outcomes ++ more := by
  induction events generalizing m with
  | nil => exact ⟨[], (List.append_nil _).symm⟩
  | cons event rest ih =>
    obtain ⟨more, hevent⟩ := observe_outcomes m event
    obtain ⟨later, hrest⟩ := ih (m.observe event)
    exact ⟨more ++ later, by rw [List.foldl_cons, hrest, hevent, List.append_assoc]⟩

/-- What waiting was going to bring before, it still brings first. -/
theorem await_outcomes (k : Kernel σ) (m : Machine σ) :
    ∃ more, (m.await k).outcomes = m.outcomes ++ more := by
  rw [await_eq]
  exact foldl_observe_outcomes _ _

/-- Waiting for children, as what the outcomes to come say. -/
theorem waitAll_cons {k : Kernel σ} {pid : Pid} {pids : List Pid} {m : Machine σ}
    {ended : Except Errno (List (Pid × Status)) × List WaitOutcome}
    (h : reap (pid :: pids) ((m.await k).outcomes ++ [.failed .noChild]) = some ended) :
    m.waitAll k (pid :: pids) = (ended.1, { m.await k with outcomes := ended.2.dropLast }) := by
  unfold waitAll
  simp only [h, Option.get_some]

theorem waitAll_world (k : Kernel σ) (pid : Pid) (pids : List Pid) (m : Machine σ) :
    (m.waitAll k (pid :: pids)).2.world = (m.await k).world := rfl

theorem waitAll_frame (k : Kernel σ) (pids : List Pid) (m : Machine σ) :
    Frame m (m.waitAll k pids).2 := by
  cases pids with
  | nil => exact .refl m
  | cons pid pids => exact (await_frame k m).trans ⟨rfl, rfl, rfl⟩

theorem waitFor_frame (k : Kernel σ) (pid : Pid) (m : Machine σ) : Frame m (m.waitFor k pid).2 :=
  (await_frame k m).trans ⟨rfl, rfl, rfl⟩

/-! ## Printing -/

@[simp] theorem flush_table (k : Kernel σ) (m : Machine σ) :
    (m.flush k).process.table = m.process.table := by
  change (m.process.flush k m.world).1.table = m.process.table
  rw [Process.flush_fst]

@[simp] theorem flush_pid (k : Kernel σ) (m : Machine σ) : (m.flush k).process.pid = m.process.pid := by
  change (m.process.flush k m.world).1.pid = m.process.pid
  rw [Process.flush_fst]

theorem flush_world (k : Kernel σ) (m : Machine σ) :
    (m.flush k).world = (m.process.flush k m.world).2 := rfl

@[simp] theorem flush_nextPid (k : Kernel σ) (m : Machine σ) : (m.flush k).nextPid = m.nextPid := rfl

@[simp] theorem flush_outcomes (k : Kernel σ) (m : Machine σ) : (m.flush k).outcomes = m.outcomes := rfl

@[simp] theorem flush_halted (k : Kernel σ) (m : Machine σ) : (m.flush k).halted = m.halted := rfl

/-- The interpreter with other output printed and not yet written. -/
def setOutput (output : Bytes) (m : Machine σ) : Machine σ :=
  { m with process := { m.process with output } }

/-- Writing to standard output changes what is printed, or it puts something behind that, flushes, and then
changes what is left. -/
theorem writeOut_cases (k : Kernel σ) (bytes : Bytes) (m : Machine σ) :
    (∃ output, (m.writeOut k bytes).2 = m.setOutput output) ∨
      ∃ held output, (m.writeOut k bytes).2 = ((m.hold held).flush k).setOutput output := by
  have hflushThen (held tail : Bytes) :
      ∃ output, ((m.hold held).flushThen k tail).2 = ((m.hold held).flush k).setOutput output := by
    unfold flushThen
    split
    · exact ⟨((m.hold held).flush k).process.output, rfl⟩
    · exact ⟨_, rfl⟩
  have hheld : m.hold [] = m := by
    unfold hold
    rw [List.append_nil]
  unfold writeOut
  simp only
  split
  · split
    · obtain ⟨output, houtput⟩ := hflushThen [] (bytes.reverse.takeWhile (· != 10)).reverse
      rw [hheld] at houtput
      exact .inr ⟨[], output, by rw [houtput, hheld]⟩
    · exact .inl ⟨_, rfl⟩
  · obtain ⟨output, houtput⟩ := hflushThen
      (bytes.take (bytes.length - (bytes.reverse.takeWhile (· != 10)).reverse.length))
      (bytes.reverse.takeWhile (· != 10)).reverse
    split
    · exact .inr ⟨_, [], by rw [houtput]; rfl⟩
    · exact .inr ⟨_, output, houtput⟩

/-- Printing is writing to standard output, and giving up after a last flush where that fails. -/
theorem print_cases (k : Kernel σ) (bytes : Bytes) (m : Machine σ) :
    m.print k bytes = (m.writeOut k bytes).2 ∨
      m.print k bytes = ((m.writeOut k bytes).2.flush k).halt .panic := by
  unfold print
  split
  · rename_i h
    rw [h]
    exact .inl rfl
  · rename_i h
    rw [h]
    exact .inr rfl

@[simp] theorem writeOut_table (k : Kernel σ) (bytes : Bytes) (m : Machine σ) :
    (m.writeOut k bytes).2.process.table = m.process.table := by
  rcases writeOut_cases k bytes m with ⟨output, h⟩ | ⟨held, output, h⟩
  · rw [h]
    rfl
  · rw [h]
    exact flush_table k (m.hold held)

@[simp] theorem print_table (k : Kernel σ) (bytes : Bytes) (m : Machine σ) :
    (m.print k bytes).process.table = m.process.table := by
  rcases print_cases k bytes m with h | h
  · rw [h, writeOut_table]
  · rw [h]
    exact (flush_table k _).trans (writeOut_table k bytes m)

theorem settle_process (k : Kernel σ) (ran : Except ProcessError Status × Machine σ) :
    (settle k ran).2.process = ran.2.process := by
  obtain ⟨result, m⟩ := ran
  cases result <;> rfl

/-! ## Forking -/

section

variable (k : Kernel σ) (body : Process → σ → ChildResult × Process × σ) (m : Machine σ)

/-- Forking, with all that it changes. -/
theorem fork_eq :
    m.fork k body =
      let ran := Process.finish k (body m.child m.world)
      (m.nextPid,
        { m with
          outcomes := m.outcomes ++ ran.1.elim [] fun word => [.reaped m.nextPid word]
          nextPid := m.nextPid + 1
          world := ran.2 }) := rfl

@[simp] theorem fork_nextPid : (m.fork k body).2.nextPid = m.nextPid + 1 := rfl

@[simp] theorem fork_process : (m.fork k body).2.process = m.process := rfl

end

/-- The interpreter from which a child is forked, where the system lets it and is then in this state. -/
def granted (k : Kernel σ) (world : σ) (m : Machine σ) : Machine σ := { m.flush k with world }

/-- The system lets the interpreter fork. -/
def Grants (k : Kernel σ) (world : σ) (m : Machine σ) : Prop :=
  k.fork (m.flush k).process (m.flush k).world = .ok world

/-- The system does not let the interpreter fork. -/
def Refuses (k : Kernel σ) (errno : Errno) (m : Machine σ) : Prop :=
  k.fork (m.flush k).process (m.flush k).world = .error errno

@[simp] theorem granted_table (k : Kernel σ) (world : σ) (m : Machine σ) :
    (m.granted k world).process.table = m.process.table :=
  flush_table k m

@[simp] theorem granted_world (k : Kernel σ) (world : σ) (m : Machine σ) :
    (m.granted k world).world = world := rfl

@[simp] theorem granted_pid (k : Kernel σ) (world : σ) (m : Machine σ) :
    (m.granted k world).process.pid = m.process.pid :=
  flush_pid k m

theorem grants_or_refuses (k : Kernel σ) (m : Machine σ) :
    (∃ world, m.Grants k world) ∨ ∃ errno, m.Refuses k errno := by
  unfold Grants Refuses
  cases k.fork (m.flush k).process (m.flush k).world with
  | ok world => exact .inl ⟨world, rfl⟩
  | error errno => exact .inr ⟨errno, rfl⟩

section

variable {k : Kernel σ} {body : Process → σ → ChildResult × Process × σ} {m : Machine σ}

theorem forkChild_granted {world : σ} (h : m.Grants k world) :
    m.forkChild k body = (.ok m.nextPid, ((m.granted k world).fork k body).2) := by
  unfold Grants at h
  unfold forkChild
  simp only [h]
  rfl

theorem forkChild_refused {errno : Errno} (h : m.Refuses k errno) :
    m.forkChild k body = (.error errno, m.flush k) := by
  unfold Refuses at h
  unfold forkChild
  simp only [h]

end

/-! ## Closing -/

@[simp] theorem close_table (fd : Nat) (m : Machine σ) :
    (m.close fd).process.table = m.process.table.close fd := rfl

@[simp] theorem close_nextPid (fd : Nat) (m : Machine σ) : (m.close fd).nextPid = m.nextPid := rfl

@[simp] theorem close_world (fd : Nat) (m : Machine σ) : (m.close fd).world = m.world := rfl

@[simp] theorem closeInput_nextPid (input : Nat) (m : Machine σ) :
    (m.closeInput input).nextPid = m.nextPid := by
  unfold closeInput
  split <;> rfl

@[simp] theorem closeInput_world (input : Nat) (m : Machine σ) :
    (m.closeInput input).world = m.world := by
  unfold closeInput
  split <;> rfl

theorem closeInput_table (input : Nat) (m : Machine σ) :
    (m.closeInput input).process.table =
      if input = 0 then m.process.table else m.process.table.close input := by
  unfold closeInput
  split <;> rfl

@[simp] theorem closePipe_table (pipe : Process.PipeEnds) (m : Machine σ) :
    (m.closePipe pipe).process.table = (m.process.table.close pipe.read).close pipe.write := rfl

@[simp] theorem closePipe_world (pipe : Process.PipeEnds) (m : Machine σ) :
    (m.closePipe pipe).world = m.world := rfl

/-! ## The stages of a pipeline -/

/-- The interpreter after the child of a stage was forked, and what that stage reads from was closed. -/
def startStage (k : Kernel σ) (body : ChildBody σ) (stage : Command) (input : Nat)
    (pipe : Option Process.PipeEnds) (world : σ) (m : Machine σ) : Machine σ :=
  ((m.granted k world).fork k (stageBody k body stage input pipe)).2.closeInput input

/-- The interpreter after a stage that a pipe follows: the two descriptors that its child has taken over
were closed. -/
def passStage (k : Kernel σ) (body : ChildBody σ) (stage : Command) (input : Nat)
    (pipe : Process.PipeEnds) (world : σ) (m : Machine σ) : Machine σ :=
  (m.startStage k body stage input (some pipe) world).close pipe.write

/-- The interpreter after a fork was refused for a stage that a pipe follows. -/
def dropStage (k : Kernel σ) (input : Nat) (pipe : Process.PipeEnds) (m : Machine σ) : Machine σ :=
  ((m.flush k).closeInput input).closePipe pipe

section

variable (k : Kernel σ) (body : ChildBody σ) (stage : Command) (input : Nat) (world : σ) (m : Machine σ)

@[simp] theorem startStage_nextPid (pipe : Option Process.PipeEnds) :
    (m.startStage k body stage input pipe world).nextPid = m.nextPid + 1 := by
  unfold startStage
  rw [closeInput_nextPid, fork_nextPid]
  rfl

theorem startStage_table (pipe : Option Process.PipeEnds) :
    (m.startStage k body stage input pipe world).process.table =
      if input = 0 then m.process.table else m.process.table.close input := by
  unfold startStage
  rw [closeInput_table, fork_process, granted_table]

theorem startStage_world (pipe : Option Process.PipeEnds) :
    (m.startStage k body stage input pipe world).world =
      ((m.granted k world).fork k (stageBody k body stage input pipe)).2.world := by
  unfold startStage
  rw [closeInput_world]

variable (pipe : Process.PipeEnds)

@[simp] theorem passStage_nextPid :
    (m.passStage k body stage input pipe world).nextPid = m.nextPid + 1 := by
  unfold passStage
  rw [close_nextPid, startStage_nextPid]

theorem passStage_table :
    (m.passStage k body stage input pipe world).process.table =
      (if input = 0 then m.process.table else m.process.table.close input).close pipe.write := by
  unfold passStage
  rw [close_table, startStage_table]

theorem dropStage_table :
    (m.dropStage k input pipe).process.table =
      ((if input = 0 then m.process.table else m.process.table.close input).close pipe.read).close
        pipe.write := by
  unfold dropStage
  rw [closePipe_table, closeInput_table, flush_table]

@[simp] theorem dropStage_nextPid : (m.dropStage k input pipe).nextPid = m.nextPid :=
  closeInput_nextPid input (m.flush k)

theorem dropStage_world : (m.dropStage k input pipe).world = (m.process.flush k m.world).2 := by
  unfold dropStage
  rw [closePipe_world, closeInput_world, flush_world]

end

section

variable {k : Kernel σ} {body : ChildBody σ} {stage next : Command} {rest : List Command} {input : Nat}
  {m : Machine σ} {pipe : Process.PipeEnds} {process : Process} {made world : σ} {errno : Errno}

theorem forkStage_granted {pipe : Option Process.PipeEnds} (h : m.Grants k world) :
    m.forkStage k body stage input pipe = (.ok m.nextPid, m.startStage k body stage input pipe world) := by
  unfold forkStage
  rw [forkChild_granted h]
  rfl

theorem forkStage_refused {pipe : Option Process.PipeEnds} (h : m.Refuses k errno) :
    m.forkStage k body stage input pipe =
      (.error (.fork errno),
        pipe.elim ((m.flush k).closeInput input) ((m.flush k).closeInput input).closePipe) := by
  unfold forkStage
  rw [forkChild_refused h]

theorem forkStages_nil : m.forkStages k body [] input = ([], none, m.closeInput input) := by
  rw [forkStages]

theorem forkStages_last (h : m.Grants k world) :
    m.forkStages k body [stage] input =
      ([m.nextPid], none, m.startStage k body stage input none world) := by
  rw [forkStages, forkStage_granted h]

theorem forkStages_last_refused (h : m.Refuses k errno) :
    m.forkStages k body [stage] input = ([], some (.fork errno), (m.flush k).closeInput input) := by
  rw [forkStages, forkStage_refused h]
  rfl

theorem forkStages_stop (h : m.process.openPipe k m.world = .error errno) :
    m.forkStages k body (stage :: next :: rest) input =
      ([], some (.pipe errno), m.closeInput input) := by
  rw [forkStages, h]

theorem forkStages_refused (h : m.process.openPipe k m.world = .ok (pipe, process, made))
    (hfork : Machine.Refuses k errno { m with process, world := made }) :
    m.forkStages k body (stage :: next :: rest) input =
      ([], some (.fork errno), { m with process, world := made }.dropStage k input pipe) := by
  rw [forkStages, h]
  simp only [forkStage_refused hfork]
  rfl

theorem forkStages_pass (h : m.process.openPipe k m.world = .ok (pipe, process, made))
    (hfork : Machine.Grants k world { m with process, world := made }) :
    m.forkStages k body (stage :: next :: rest) input =
      let ran := ({ m with process, world := made }.passStage k body stage input pipe world).forkStages k
        body (next :: rest) pipe.read
      (m.nextPid :: ran.1, ran.2.1, ran.2.2) := by
  rw [forkStages, h]
  simp only [forkStage_granted hfork]
  rfl

end

/-- The cases of forking the stages of a pipeline: there are none; the last one, forked or refused; one
whose pipe cannot be made; one that is refused its fork when its pipe has been made; and one that is
passed, and then those after it. -/
theorem forkStages_induct (k : Kernel σ) (body : ChildBody σ)
    {motive : List Command → Nat → Machine σ → Prop}
    (nil : ∀ input m, motive [] input m)
    (last : ∀ stage input (m : Machine σ) world, m.Grants k world → motive [stage] input m)
    (lastRefused : ∀ stage input (m : Machine σ) errno, m.Refuses k errno → motive [stage] input m)
    (stop : ∀ stage next rest input (m : Machine σ) errno,
      m.process.openPipe k m.world = .error errno → motive (stage :: next :: rest) input m)
    (refused : ∀ stage next rest input (m : Machine σ) pipe process made errno,
      m.process.openPipe k m.world = .ok (pipe, process, made) →
      Machine.Refuses k errno { m with process, world := made } →
      motive (stage :: next :: rest) input m)
    (pass : ∀ stage next rest input (m : Machine σ) pipe process made world,
      m.process.openPipe k m.world = .ok (pipe, process, made) →
      Machine.Grants k world { m with process, world := made } →
      motive (next :: rest) pipe.read
        ({ m with process, world := made }.passStage k body stage input pipe world) →
      motive (stage :: next :: rest) input m)
    (stages : List Command) (input : Nat) (m : Machine σ) : motive stages input m := by
  induction stages generalizing input m with
  | nil => exact nil input m
  | cons stage rest ih =>
    cases rest with
    | nil =>
      rcases grants_or_refuses k m with ⟨world, hfork⟩ | ⟨errno, hfork⟩
      · exact last stage input m world hfork
      · exact lastRefused stage input m errno hfork
    | cons next rest =>
      cases h : m.process.openPipe k m.world with
      | error errno => exact stop stage next rest input m errno h
      | ok opened =>
        obtain ⟨pipe, process, made⟩ := opened
        rcases grants_or_refuses k { m with process, world := made } with ⟨world, hfork⟩ | ⟨errno, hfork⟩
        · exact pass stage next rest input m pipe process made world h hfork (ih _ _)
        · exact refused stage next rest input m pipe process made errno h hfork

@[simp] theorem closeInput_halted (input : Nat) (m : Machine σ) :
    (m.closeInput input).halted = m.halted := by
  unfold closeInput
  split <;> rfl

/-- Forking does not halt the interpreter. -/
theorem forkStages_halted (k : Kernel σ) (body : ChildBody σ) (stages : List Command) (input : Nat)
    (m : Machine σ) : (m.forkStages k body stages input).2.2.halted = m.halted := by
  induction stages, input, m using forkStages_induct k body with
  | nil input m => rw [forkStages_nil, closeInput_halted]
  | last stage input m world hfork =>
    rw [forkStages_last hfork]
    exact closeInput_halted input _
  | lastRefused stage input m errno hfork =>
    rw [forkStages_last_refused hfork]
    exact closeInput_halted input _
  | stop stage next rest input m errno hpipe => rw [forkStages_stop hpipe, closeInput_halted]
  | refused stage next rest input m pipe process made errno hpipe hfork =>
    rw [forkStages_refused hpipe hfork]
    exact closeInput_halted input _
  | pass stage next rest input m pipe process made world hpipe hfork ih =>
    rw [forkStages_pass hpipe hfork, ih]
    exact closeInput_halted input _

/-- What a pipeline comes to, from the status of its children and what kept the rest from being
started. -/
def pipelineResult (pids : List Pid) (failure : Option ProcessError)
    (waited : Except Errno (List (Pid × Status))) : Except ProcessError Status :=
  match waited, failure with
  | .error errno, _ => .error (.wait errno)
  | .ok _, some e => .error e
  | .ok reaped, none => .ok (pipelineStatus pids reaped)

/-- A pipeline is its stages forked, and then waited for. -/
theorem runPipeline_eq (k : Kernel σ) (body : ChildBody σ) (stages : List Command) (m : Machine σ) :
    m.runPipeline k body stages =
      let forked := m.forkStages k body stages 0
      let waited := forked.2.2.waitAll k forked.1
      (pipelineResult forked.1 forked.2.1 waited.1, waited.2) := by
  unfold runPipeline
  obtain ⟨pids, failure, m⟩ := m.forkStages k body stages 0
  simp only
  obtain ⟨result, m⟩ := m.waitAll k pids
  cases result with
  | error errno => rfl
  | ok reaped => cases failure <;> rfl

end Machine

end LineShell
