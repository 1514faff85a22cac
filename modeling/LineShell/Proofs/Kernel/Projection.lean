import LineShell.Proofs.Kernel.Machine

/-!
# Kernels over kernels

A kernel whose state holds more than another's, and which does the same otherwise, **projects** to it.
`Kernel.Projects` asks for this call by call, and the lemmas carry it through the operations of a
process and of the interpreter, up to `runPipeline_map`: what a pipeline does over the larger state is
what it does over the smaller one.

This is how a run is observed: a state that also writes down what happens projects to one that does
not.
-/

namespace LineShell

variable {τ : Type u} {σ : Type v}

/-- What `above` does, seen through `f`, is what `below` does. -/
structure Kernel.Projects (f : τ → σ) (above : Kernel τ) (below : Kernel σ) : Prop where
  openFile : ∀ p direction path t,
    (above.openFile p direction path t).map (fun opened => (opened.1, f opened.2)) =
      below.openFile p direction path (f t)
  newPipe : ∀ t, (above.newPipe t).map (fun made => (made.1, f made.2)) = below.newPipe (f t)
  write : ∀ handle bytes t, f (above.write handle bytes t) = below.write handle bytes (f t)
  fault : ∀ handle bytes t, above.fault handle bytes t = below.fault handle bytes (f t)
  fork : ∀ p t, (above.fork p t).map f = below.fork p (f t)
  start : ∀ words p t, (above.start words p t).map f = below.start words p (f t)
  await : ∀ fatal p t,
    ((above.await fatal p t).1, f (above.await fatal p t).2) = below.await fatal p (f t)

/-- What a child does over the larger state is what it does over the smaller one. -/
def ChildBody.Projects (f : τ → σ) (above : ChildBody τ) (below : ChildBody σ) : Prop :=
  ∀ words p t,
    ((above words p t).1, (above words p t).2.1, f (above words p t).2.2) = below words p (f t)

section

variable {f : τ → σ} {above : Kernel τ} {below : Kernel σ}

/-! ## Processes -/

namespace Process

theorem write_map (h : above.Projects f below) (p : Process) (fd : Nat) (bytes : Bytes) (t : τ) :
    f (p.write above fd bytes t) = p.write below fd bytes (f t) := by
  unfold write
  cases p.table.get? fd with
  | none => rfl
  | some slot => exact h.write slot.handle bytes t

theorem outputFault?_map (h : above.Projects f below) (p : Process) (bytes : Bytes) (t : τ) :
    p.outputFault? above bytes t = p.outputFault? below bytes (f t) := by
  unfold outputFault?
  simp only [h.fault]

theorem flush_map (h : above.Projects f below) (p : Process) (t : τ) :
    ((p.flush above t).1, f (p.flush above t).2) = p.flush below (f t) := by
  unfold flush
  cases p.output with
  | nil => rfl
  | cons byte rest =>
    simp only
    rw [write_map h, outputFault?_map h]

theorem openPipe_map (h : above.Projects f below) (p : Process) (t : τ) :
    (p.openPipe above t).map (fun made => (made.1, made.2.1, f made.2.2)) =
      p.openPipe below (f t) := by
  unfold openPipe
  rw [← h.newPipe t]
  cases above.newPipe t with
  | error errno => rfl
  | ok made =>
    simp only [Except.map]
    cases p.table.insert ⟨.pipe made.1 .read, true⟩ with
    | error errno => rfl
    | ok inserted =>
      simp only
      cases inserted.2.insert ⟨.pipe made.1 .write, true⟩ with
      | error errno => rfl
      | ok inserted => rfl

theorem openFile_map (h : above.Projects f below) (p : Process) (direction : Direction) (path : Text)
    (t : τ) :
    (p.openFile above direction path t).map (fun opened => (opened.1, opened.2.1, f opened.2.2)) =
      p.openFile below direction path (f t) := by
  unfold openFile
  rw [← h.openFile p direction path t]
  split
  · rfl
  · split
    · rfl
    · split
      · rfl
      · cases above.openFile p direction path t with
        | error errno => rfl
        | ok opened =>
          simp only [Except.map]
          cases p.table.insert ⟨opened.1, true⟩ with
          | error errno => rfl
          | ok inserted => rfl

theorem finish_map (h : above.Projects f below) (result : ChildResult) (p : Process) (t : τ) :
    ((finish above (result, p, t)).1, f (finish above (result, p, t)).2) =
      finish below (result, p, f t) := by
  cases result with
  | replaced => rfl
  | returned code =>
    unfold finish
    simp only
    rw [← flush_map h]

end Process

/-! ## Redirections -/

theorem Redirect.apply_map (h : above.Projects f below) (r : Redirect) (p : Process) (t : τ) :
    ((r.apply above p t).1, (r.apply above p t).2.1, f (r.apply above p t).2.2) =
      r.apply below p (f t) := by
  unfold apply
  rw [← Process.openFile_map h]
  cases p.openFile above r.direction r.target t with
  | error failure => rfl
  | ok opened => rfl

theorem Redirect.applyAll_map (h : above.Projects f below) (redirects : List Redirect) (p : Process)
    (t : τ) :
    ((applyAll above redirects p t).1, (applyAll above redirects p t).2.1,
        f (applyAll above redirects p t).2.2) =
      applyAll below redirects p (f t) := by
  induction redirects generalizing p t with
  | nil => rfl
  | cons r rest ih =>
    rw [applyAll, applyAll, ← apply_map h]
    obtain ⟨result, p', t'⟩ := r.apply above p t
    cases result with
    | error e => rfl
    | ok done => exact ih p' t'

theorem resolve_map (h : above.Projects f below) (words : List Text) (p : Process) (t : τ) :
    ((resolve above words p t).1, (resolve above words p t).2.1, f (resolve above words p t).2.2) =
      resolve below words p (f t) := by
  unfold resolve
  cases plan words with
  | error e => rfl
  | ok planned =>
    simp only
    rw [← Redirect.applyAll_map h]

/-! ## The interpreter -/

namespace Machine

/-- The machine seen through a function on the state that processes share. -/
def map (f : τ → σ) (m : Machine τ) : Machine σ where
  process := m.process
  interrupted := m.interrupted
  outcomes := m.outcomes
  nextPid := m.nextPid
  disposition := m.disposition
  halted := m.halted.map fun (reason, world) => (reason, f world)
  world := f m.world

theorem halt_map (f : τ → σ) (reason : Halt) (m : Machine τ) :
    (m.halt reason).map f = (m.map f).halt reason := by
  unfold halt map
  simp only
  cases m.halted <;> rfl

theorem receive_map (f : τ → σ) (signal : Nat) (m : Machine τ) :
    (m.receive signal).map f = (m.map f).receive signal := by
  have hsame : (m.map f).disposition = m.disposition := rfl
  unfold receive
  rw [hsame]
  cases m.disposition signal with
  | ignored => rfl
  | remembered => rfl
  | fatal => exact halt_map f (.signal signal) m

theorem observe_map (f : τ → σ) (m : Machine τ) (event : Event) :
    (m.observe event).map f = (m.map f).observe event := by
  cases event with
  | ended pid word => rfl
  | signal number => exact receive_map f number m
  | stuck => exact halt_map f .stuck m

theorem foldl_observe_map (f : τ → σ) (events : List Event) (m : Machine τ) :
    (events.foldl observe m).map f = events.foldl observe (m.map f) := by
  induction events generalizing m with
  | nil => rfl
  | cons event rest ih =>
    rw [List.foldl_cons, List.foldl_cons, ih, observe_map]

theorem await_map (h : above.Projects f below) (m : Machine τ) :
    (m.await above).map f = (m.map f).await below := by
  have hawait := h.await (fun signal => m.disposition signal == .fatal) m.process m.world
  rw [await_eq, await_eq]
  simp only [map] at hawait ⊢
  rw [← hawait]
  exact foldl_observe_map f _ _

theorem waitAll_map (h : above.Projects f below) (pids : List Pid) (m : Machine τ) :
    ((m.waitAll above pids).1, (m.waitAll above pids).2.map f) = (m.map f).waitAll below pids := by
  cases pids with
  | nil => rfl
  | cons pid pids =>
    have hsame : ((m.map f).await below).outcomes = (m.await above).outcomes := by
      rw [← await_map h]
      rfl
    obtain ⟨ended, hended⟩ := Option.isSome_iff_exists.mp
      (reap_isSome (pid :: pids) (m.await above).outcomes)
    rw [waitAll_cons hended, waitAll_cons (hsame ▸ hended), ← await_map h]
    rfl

theorem flush_map (h : above.Projects f below) (m : Machine τ) :
    (m.flush above).map f = (m.map f).flush below := by
  have := Process.flush_map h m.process m.world
  unfold flush
  simp only [map] at this ⊢
  rw [← this]

theorem fork_map (h : above.Projects f below)
    {body : Process → τ → ChildResult × Process × τ} {body' : Process → σ → ChildResult × Process × σ}
    (hbody : ∀ p t, ((body p t).1, (body p t).2.1, f (body p t).2.2) = body' p (f t))
    (m : Machine τ) :
    ((m.fork above body).1, (m.fork above body).2.map f) = (m.map f).fork below body' := by
  have hfinish := Process.finish_map h (body m.child m.world).1 (body m.child m.world).2.1
    (body m.child m.world).2.2
  rw [hbody m.child m.world] at hfinish
  rw [fork_eq, fork_eq]
  change _ = (m.nextPid, ({ m.map f with
    outcomes := m.outcomes ++ (Process.finish below (body' m.child (f m.world))).1.elim [] fun word =>
      [.reaped m.nextPid word]
    nextPid := m.nextPid + 1
    world := (Process.finish below (body' m.child (f m.world))).2 } : Machine σ))
  rw [← hfinish]
  rfl

theorem grants_map (h : above.Projects f below) {m : Machine τ} {world : τ} (hfork : m.Grants above world) :
    (m.map f).Grants below (f world) := by
  unfold Grants at hfork ⊢
  rw [← flush_map h]
  change below.fork (m.flush above).process (f (m.flush above).world) = _
  rw [← h.fork, hfork]
  rfl

theorem refuses_map (h : above.Projects f below) {m : Machine τ} {errno : Errno}
    (hfork : m.Refuses above errno) : (m.map f).Refuses below errno := by
  unfold Refuses at hfork ⊢
  rw [← flush_map h]
  change below.fork (m.flush above).process (f (m.flush above).world) = _
  rw [← h.fork, hfork]
  rfl

theorem granted_map (h : above.Projects f below) (world : τ) (m : Machine τ) :
    (m.granted above world).map f = (m.map f).granted below (f world) := by
  unfold granted
  rw [← flush_map h]
  rfl

theorem stageBody_map (h : above.Projects f below) {body : ChildBody τ} {body' : ChildBody σ}
    (hbody : body.Projects f body') (stage : Command) (input : Nat) (pipe : Option Process.PipeEnds)
    (p : Process) (t : τ) :
    ((stageBody above body stage input pipe p t).1, (stageBody above body stage input pipe p t).2.1,
        f (stageBody above body stage input pipe p t).2.2) =
      stageBody below body' stage input pipe p (f t) := by
  unfold stageBody
  cases p.table.forStage input pipe with
  | ok table => exact hbody stage.words { p with table } t
  | error failed =>
    simp only
    rw [Process.write_map h]

theorem closeInput_map (f : τ → σ) (input : Nat) (m : Machine τ) :
    (m.closeInput input).map f = (m.map f).closeInput input := by
  unfold closeInput
  split <;> rfl

theorem startStage_map (h : above.Projects f below) {body : ChildBody τ} {body' : ChildBody σ}
    (hbody : body.Projects f body') (stage : Command) (input : Nat) (pipe : Option Process.PipeEnds)
    (world : τ) (m : Machine τ) :
    (m.startStage above body stage input pipe world).map f =
      (m.map f).startStage below body' stage input pipe (f world) := by
  have hforked := fork_map h (stageBody_map h hbody stage input pipe) (m.granted above world)
  unfold startStage
  rw [closeInput_map, ← granted_map h, ← hforked]

theorem forkStages_map (h : above.Projects f below) {body : ChildBody τ} {body' : ChildBody σ}
    (hbody : body.Projects f body') (stages : List Command) (input : Nat) (m : Machine τ) :
    ((m.forkStages above body stages input).1, (m.forkStages above body stages input).2.1,
        (m.forkStages above body stages input).2.2.map f) =
      (m.map f).forkStages below body' stages input := by
  induction stages, input, m using forkStages_induct above body with
  | nil input m =>
    rw [forkStages_nil, forkStages_nil, ← closeInput_map]
  | last stage input m world hfork =>
    rw [forkStages_last hfork, forkStages_last (grants_map h hfork), ← startStage_map h hbody]
    rfl
  | lastRefused stage input m errno hfork =>
    rw [forkStages_last_refused hfork, forkStages_last_refused (refuses_map h hfork), closeInput_map,
      flush_map h]
  | stop stage next rest input m errno hpipe =>
    have hpipe' : (m.map f).process.openPipe below (m.map f).world = .error errno := by
      simp only [map]
      rw [← Process.openPipe_map h, hpipe]
      rfl
    rw [forkStages_stop hpipe, forkStages_stop hpipe', ← closeInput_map]
  | refused stage next rest input m pipe process made errno hpipe hfork =>
    have hpipe' : (m.map f).process.openPipe below (m.map f).world = .ok (pipe, process, f made) := by
      simp only [map]
      rw [← Process.openPipe_map h, hpipe]
      rfl
    have hdrop : (dropStage above input pipe { m with process, world := made }).map f =
        dropStage below input pipe { m.map f with process, world := f made } := by
      unfold dropStage
      change ((closeInput input _).map f).closePipe pipe = _
      rw [closeInput_map, flush_map h]
      rfl
    rw [forkStages_refused hpipe hfork, forkStages_refused hpipe' (refuses_map h hfork), hdrop]
  | pass stage next rest input m pipe process made world hpipe hfork ih =>
    have hpipe' : (m.map f).process.openPipe below (m.map f).world = .ok (pipe, process, f made) := by
      simp only [map]
      rw [← Process.openPipe_map h, hpipe]
      rfl
    have hpass :
        (passStage above body stage input pipe world { m with process, world := made }).map f =
          passStage below body' stage input pipe (f world)
            { m.map f with process, world := f made } := by
      unfold passStage
      change ((startStage above body stage input (some pipe) world _).map f).close pipe.write = _
      rw [startStage_map h hbody]
      rfl
    rw [forkStages_pass hpipe hfork, forkStages_pass hpipe' (grants_map h hfork), ← hpass, ← ih]
    rfl

/-- **Running a pipeline over the larger state is running it over the smaller one.** -/
theorem runPipeline_map (h : above.Projects f below) {body : ChildBody τ} {body' : ChildBody σ}
    (hbody : body.Projects f body') (stages : List Command) (m : Machine τ) :
    ((m.runPipeline above body stages).1, (m.runPipeline above body stages).2.map f) =
      (m.map f).runPipeline below body' stages := by
  rw [runPipeline_eq, runPipeline_eq, ← forkStages_map h hbody]
  simp only
  rw [← waitAll_map h]

end Machine

end

end LineShell
