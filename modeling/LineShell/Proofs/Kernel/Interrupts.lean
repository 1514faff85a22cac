import LineShell.Kernel.Host
import LineShell.Proofs.Attempt
import LineShell.Proofs.Kernel.Keep
import LineShell.Proofs.Kernel.Laws
import LineShell.Proofs.Kernel.Projection
import LineShell.Proofs.Kernel.Stage
import LineShell.Proofs.Session.Interrupts
import LineShell.System.Station

/-!
# Interrupts while children run

While the interpreter waits, the system delivers signals to it. `Kernel.counting` counts the interrupts
among them, and changes nothing else (`Kernel.counting_projects`).

* `Machine.Hears`: where an interrupt is the one signal that is remembered, an operation of the
  interpreter has set the flag exactly if it was set or the system has delivered an interrupt. It is
  proved for waiting, which is where signals arrive (`Machine.await_hears`), and carried through forking
  and waiting to the launches.
* `Machine.host_hears`: so a session's host hears every interrupt.
* `interrupts_reported_once`: what a session reports of interrupts, whenever they arrive.
-/

namespace LineShell

variable {σ : Type u}

/-! ## Counting -/

/-- The kernel that also counts the interrupts it delivers. -/
def Kernel.counting (k : Kernel σ) : Kernel (σ × Nat) where
  openFile p direction path s :=
    (k.openFile p direction path s.1).map fun (handle, world) => (handle, world, s.2)
  newPipe s := (k.newPipe s.1).map fun (id, world) => (id, world, s.2)
  write handle bytes s := (k.write handle bytes s.1, s.2)
  fault handle bytes s := k.fault handle bytes s.1
  fork p s := (k.fork p s.1).map fun world => (world, s.2)
  start words p s := (k.start words p s.1).map fun world => (world, s.2)
  await fatal p s :=
    let (events, world) := k.await fatal p s.1
    (events, world, s.2 + events.count (.signal Session.interruptSignal))

/-- A child that leaves the count alone. -/
def ChildBody.counting (body : ChildBody σ) : ChildBody (σ × Nat) := fun words p s =>
  let (result, p', world) := body words p s.1
  (result, p', world, s.2)

/-- **Counting changes nothing else.** -/
theorem Kernel.counting_projects (k : Kernel σ) : k.counting.Projects Prod.fst k where
  openFile p direction path s := by
    change ((k.openFile p direction path s.1).map _).map _ = _
    cases k.openFile p direction path s.1 <;> rfl
  newPipe s := by
    change ((k.newPipe s.1).map _).map _ = _
    cases k.newPipe s.1 <;> rfl
  write _ _ _ := rfl
  fault _ _ _ := rfl
  fork p s := by
    change ((k.fork p s.1).map _).map _ = _
    cases k.fork p s.1 <;> rfl
  start words p s := by
    change ((k.start words p s.1).map _).map _ = _
    cases k.start words p s.1 <;> rfl
  await _ _ _ := rfl

theorem ChildBody.counting_projects (body : ChildBody σ) : body.counting.Projects Prod.fst body :=
  fun _ _ _ => rfl

/-- Nothing but waiting is counted. -/
theorem Kernel.counting_keeps (k : Kernel σ) (n : Nat) : k.counting.Keeps fun s => s.2 = n where
  openFile h hs := by
    obtain ⟨opened, -, heq⟩ := map_eq_ok.mp h
    obtain ⟨-, rfl⟩ := Prod.mk.inj heq
    exact hs
  write _ _ _ hs := hs
  fork h hs := by
    obtain ⟨world, -, rfl⟩ := map_eq_ok.mp h
    exact hs

theorem Process.openPipe_counting {k : Kernel σ} {p p' : Process} {s s' : σ × Nat} {ends : PipeEnds}
    (h : p.openPipe k.counting s = .ok (ends, p', s')) : s'.2 = s.2 := by
  obtain ⟨id, table, hnew, -, -⟩ := openPipe_eq_ok h
  obtain ⟨made, -, heq⟩ := map_eq_ok.mp hnew
  obtain ⟨-, rfl⟩ := Prod.mk.inj heq
  rfl

/-! ## The interpreter's operations -/

namespace Machine

/-- An interrupt is the one signal that the interpreter remembers. -/
def RemembersInterrupts (m : Machine σ) : Prop :=
  ∀ signal, m.disposition signal = .remembered ↔ signal = Session.interruptSignal

/-- An operation has set the flag exactly by the interrupts that the system delivered in it. -/
structure Heard (m m' : Machine (σ × Nat)) : Prop where
  disposition : m'.disposition = m.disposition
  later : m.world.2 ≤ m'.world.2
  flag : m'.interrupted = true ↔ m.interrupted = true ∨ m.world.2 < m'.world.2

namespace Heard

variable {m m' m'' : Machine (σ × Nat)}

/-- An operation in which no signal can arrive. -/
theorem of_eq (hdisposition : m'.disposition = m.disposition) (hcount : m'.world.2 = m.world.2)
    (hflag : m'.interrupted = m.interrupted) : Heard m m' where
  disposition := hdisposition
  later := Nat.le_of_eq hcount.symm
  flag := by
    rw [hcount, hflag]
    simp

theorem refl (m : Machine (σ × Nat)) : Heard m m := of_eq rfl rfl rfl

theorem trans (h : Heard m m') (h' : Heard m' m'') : Heard m m'' where
  disposition := h'.disposition.trans h.disposition
  later := Nat.le_trans h.later h'.later
  flag := by
    have hfirst := h.later
    have hsecond := h'.later
    rw [h'.flag, h.flag, or_assoc]
    refine or_congr_right ⟨fun hcount => ?_, fun hcount => ?_⟩
    · omega
    · omega

theorem remembers (h : Heard m m') (hm : m.RemembersInterrupts) : m'.RemembersInterrupts := by
  unfold RemembersInterrupts
  rw [h.disposition]
  exact hm

end Heard

/-- The flag is set by the interrupts among the events, and by nothing else. -/
theorem foldl_observe_interrupted {m : Machine σ} (hm : m.RemembersInterrupts) (events : List Event) :
    (events.foldl observe m).interrupted = true ↔
      m.interrupted = true ∨ 0 < events.count (.signal Session.interruptSignal) := by
  induction events generalizing m with
  | nil => simp
  | cons event rest ih =>
    have hframe := observe_frame m event
    have hrest : (m.observe event).RemembersInterrupts := by
      unfold RemembersInterrupts
      rw [hframe.disposition]
      exact hm
    rw [List.foldl_cons, ih hrest]
    cases event with
    | ended pid word =>
      rw [List.count_cons_of_ne (by simp)]
      rfl
    | signal number =>
      by_cases hnumber : number = Session.interruptSignal
      · subst hnumber
        have hset : (m.observe (.signal Session.interruptSignal)).interrupted = true := by
          simp only [observe, receive, (hm _).mpr rfl]
        rw [hset, List.count_cons_self]
        simp
      · have hkept : (m.observe (.signal number)).interrupted = m.interrupted := by
          have hother : m.disposition number ≠ .remembered := fun h => hnumber ((hm number).mp h)
          cases hdisposition : m.disposition number with
          | ignored => simp only [observe, receive, hdisposition]
          | remembered => exact absurd hdisposition hother
          | fatal => simp only [observe, receive, hdisposition, halt]
        rw [hkept, List.count_cons_of_ne (by simpa using hnumber)]
    | stuck =>
      rw [List.count_cons_of_ne (by simp)]
      rfl

/-- **Waiting hears every interrupt that is delivered meanwhile.** -/
theorem await_heard (k : Kernel σ) {m : Machine (σ × Nat)} (hm : m.RemembersInterrupts) :
    Heard m (m.await k.counting) := by
  have hcount : (m.await k.counting).world.2 = m.world.2 +
      (k.await (fun signal => m.disposition signal == .fatal) m.process m.world.1).1.count
        (.signal Session.interruptSignal) := by
    rw [await_world]
    rfl
  have hflag := foldl_observe_interrupted (m := { m with world := (k.counting.await
    (fun signal => m.disposition signal == .fatal) m.process m.world).2 }) hm
    (k.await (fun signal => m.disposition signal == .fatal) m.process m.world.1).1
  refine ⟨(await_frame k.counting m).disposition, ?_, ?_⟩
  · rw [hcount]
    exact Nat.le_add_right _ _
  · rw [hcount, await_eq]
    refine hflag.trans (or_congr_right ?_)
    omega

theorem waitAll_heard (k : Kernel σ) (pids : List Pid) {m : Machine (σ × Nat)}
    (hm : m.RemembersInterrupts) : Heard m (m.waitAll k.counting pids).2 := by
  cases pids with
  | nil => exact .refl m
  | cons pid pids => exact (await_heard k hm).trans (.of_eq rfl rfl rfl)

theorem waitFor_heard (k : Kernel σ) (pid : Pid) {m : Machine (σ × Nat)} (hm : m.RemembersInterrupts) :
    Heard m (m.waitFor k.counting pid).2 :=
  (await_heard k hm).trans (.of_eq rfl rfl rfl)

theorem flush_heard (k : Kernel σ) (m : Machine (σ × Nat)) : Heard m (m.flush k.counting) :=
  .of_eq rfl (Process.flush_keeps (k.counting_keeps m.world.2) m.process rfl) rfl

theorem writeOut_heard (k : Kernel σ) (bytes : Bytes) (m : Machine (σ × Nat)) :
    Heard m (m.writeOut k.counting bytes).2 := by
  rcases writeOut_cases k.counting bytes m with ⟨output, h⟩ | ⟨held, output, h⟩
  · rw [h]
    exact .of_eq rfl rfl rfl
  · have hheld : Heard m (m.hold held) := .of_eq rfl rfl rfl
    rw [h]
    exact (hheld.trans (flush_heard k _)).trans (.of_eq rfl rfl rfl)

theorem print_heard (k : Kernel σ) (bytes : Bytes) (m : Machine (σ × Nat)) :
    Heard m (m.print k.counting bytes) := by
  have hwritten := writeOut_heard k bytes m
  rcases print_cases k.counting bytes m with h | h
  · rw [h]
    exact hwritten
  · rw [h]
    exact (hwritten.trans (flush_heard k _)).trans (.of_eq rfl rfl rfl)

theorem complain_heard (k : Kernel σ) (message : Text) (m : Machine (σ × Nat)) :
    Heard m (m.complain k.counting message) :=
  .of_eq rfl (Process.write_keeps (k.counting_keeps m.world.2) m.process 2 _ rfl) rfl

theorem fork_heard (k : Kernel σ) (child : Process → σ × Nat → ChildResult × Process × σ × Nat)
    (hchild : ∀ p s, (child p s).2.2.2 = s.2) (m : Machine (σ × Nat)) :
    Heard m (m.fork k.counting child).2 :=
  .of_eq rfl (fork_keeps (k.counting_keeps m.world.2) (fun p s hs => (hchild p s).trans hs) rfl) rfl

theorem granted_heard {k : Kernel σ} {m : Machine (σ × Nat)} {world : σ × Nat}
    (hfork : m.Grants k.counting world) : Heard m (m.granted k.counting world) :=
  .of_eq rfl (granted_keeps (k.counting_keeps m.world.2) hfork rfl) rfl

theorem forkChild_heard (k : Kernel σ) (child : Process → σ × Nat → ChildResult × Process × σ × Nat)
    (hchild : ∀ p s, (child p s).2.2.2 = s.2) (m : Machine (σ × Nat)) :
    Heard m (m.forkChild k.counting child).2 := by
  rcases grants_or_refuses k.counting m with ⟨world, hfork⟩ | ⟨errno, hfork⟩
  · rw [forkChild_granted hfork]
    exact (granted_heard hfork).trans (fork_heard k child hchild _)
  · rw [forkChild_refused hfork]
    exact flush_heard k m

theorem stageBody_counting (k : Kernel σ) (body : ChildBody σ) (stage : Command) (input : Nat)
    (pipe : Option Process.PipeEnds) (p : Process) (s : σ × Nat) :
    (stageBody k.counting body.counting stage input pipe p s).2.2.2 = s.2 :=
  stageBody_keeps (k.counting_keeps s.2) (fun _ _ _ hs => hs) stage input pipe p rfl

theorem closeInput_heard (input : Nat) (m : Machine (σ × Nat)) : Heard m (m.closeInput input) := by
  unfold closeInput
  split
  · exact .refl m
  · exact .of_eq rfl rfl rfl

theorem forkStage_heard (k : Kernel σ) (body : ChildBody σ) (stage : Command) (input : Nat)
    (pipe : Option Process.PipeEnds) (m : Machine (σ × Nat)) :
    Heard m (m.forkStage k.counting body.counting stage input pipe).2 := by
  have hforked := forkChild_heard k _ (stageBody_counting k body stage input pipe) m
  unfold forkStage
  generalize m.forkChild k.counting (stageBody k.counting body.counting stage input pipe) = ran at hforked
  obtain ⟨forked, m'⟩ := ran
  have hclosed := hforked.trans (closeInput_heard input m')
  cases forked with
  | ok pid => exact hclosed
  | error errno =>
    cases pipe with
    | none => exact hclosed
    | some pipe => exact hclosed.trans (.of_eq rfl rfl rfl)

/-- Forking the stages of a pipeline lets no signal arrive. -/
theorem forkStages_heard (k : Kernel σ) (body : ChildBody σ) (stages : List Command) (input : Nat)
    (m : Machine (σ × Nat)) : Heard m (m.forkStages k.counting body.counting stages input).2.2 := by
  induction stages, input, m using forkStages_induct k.counting body.counting with
  | nil input m =>
    rw [forkStages_nil]
    exact closeInput_heard input m
  | last stage input m world hfork =>
    have hforked := forkStage_heard k body stage input none m
    rw [forkStage_granted hfork] at hforked
    rw [forkStages_last hfork]
    exact hforked
  | lastRefused stage input m errno hfork =>
    rw [forkStages_last_refused hfork]
    exact (flush_heard k m).trans (closeInput_heard input _)
  | stop stage next rest input m errno hpipe =>
    rw [forkStages_stop hpipe]
    exact closeInput_heard input m
  | refused stage next rest input m pipe process made errno hpipe hfork =>
    have hmade : Heard m { m with process, world := made } :=
      .of_eq rfl (Process.openPipe_counting hpipe) rfl
    have hforked := forkStage_heard k body stage input (some pipe) { m with process, world := made }
    rw [forkStage_refused hfork] at hforked
    rw [forkStages_refused hpipe hfork]
    exact hmade.trans hforked
  | pass stage next rest input m pipe process made world hpipe hfork ih =>
    have hmade : Heard m { m with process, world := made } :=
      .of_eq rfl (Process.openPipe_counting hpipe) rfl
    have hforked := forkStage_heard k body stage input (some pipe) { m with process, world := made }
    rw [forkStage_granted hfork] at hforked
    have hpassed : Heard m (passStage k.counting body.counting stage input pipe world
        { m with process, world := made }) :=
      (hmade.trans hforked).trans (.of_eq rfl rfl rfl)
    rw [forkStages_pass hpipe hfork]
    exact hpassed.trans ih

theorem runSimple_heard (k : Kernel σ) (body : ChildBody σ) (command : Command) {m : Machine (σ × Nat)}
    (hm : m.RemembersInterrupts) : Heard m (m.runSimple k.counting body.counting command).2 := by
  have hforked := forkChild_heard k (body.counting command.words) (fun _ _ => rfl) m
  unfold runSimple
  split
  · rename_i h
    rw [h] at hforked
    exact hforked
  · rename_i h
    rw [h] at hforked
    exact hforked.trans (waitFor_heard k _ (hforked.remembers hm))

theorem settle_heard (k : Kernel σ) {m : Machine (σ × Nat)}
    {ran : Except ProcessError Status × Machine (σ × Nat)} (h : Heard m ran.2) :
    Heard m (settle k.counting ran).2 := by
  obtain ⟨result, m'⟩ := ran
  cases result with
  | ok status => exact h
  | error e => exact h.trans (complain_heard k e.message m')

/-- **The host of a session hears every interrupt**, whatever the system and the children do. -/
theorem host_hears (k : Kernel σ) (body : ChildBody σ) :
    (Machine.host k.counting body.counting).Hears (fun m => m.world.2) RemembersInterrupts := by
  have hheard {m m' : Machine (σ × Nat)} (hm : m.RemembersInterrupts) (h : Heard m m') :
      m'.RemembersInterrupts ∧
        (Machine.host k.counting body.counting).Heard (fun m => m.world.2) m m' :=
    ⟨h.remembers hm, h.later, h.flag⟩
  exact {
    command := fun command m hm => hheard hm (settle_heard k (runSimple_heard k body command hm))
    pipeline := fun stages m hm => hheard hm (settle_heard k (by
      have hforked := forkStages_heard k body stages 0 m
      rw [runPipeline_eq]
      exact hforked.trans (waitAll_heard k _ (hforked.remembers hm))))
    output :=
      { write := fun bytes m hm => hheard hm (writeOut_heard k bytes m)
        flush := fun m hm => hheard hm (flush_heard k m) }
    print := fun bytes m hm => hheard hm (print_heard k bytes m)
    complain := fun message m hm => hheard hm (complain_heard k message m)
    setInterrupted := fun _ _ hm => ⟨hm, rfl, rfl⟩ }

end Machine

/-! ## What a session reports -/

/-- A session at its beginning, before which so many interrupts have arrived; `schedule` tells how many
are sent during each of the operations to come. -/
def Turn.start {W : Type u} (s : Session) (w : W) (arrived : Nat) (schedule : List Nat) : Turn W :=
  ⟨s, ⟨w, schedule, 0, []⟩, arrived⟩

/-- **Interrupts are reported once.** Whatever the system and the children do, and whenever interrupts
arrive: between lines (`stimuli`), while the interpreter waits (as the kernel delivers them), or during
any other operation (`schedule`); from a clear flag on, after any lines and interrupts, the next dispatch
reports exactly what has arrived since the last one that asked. -/
theorem interrupts_reported_once (k : Kernel σ) (body : ChildBody σ) (s : Session)
    {m : Machine (σ × Nat)} (hremembers : m.RemembersInterrupts) (hclear : m.interrupted = false)
    (schedule : List Nat) (stimuli : List Stimulus) (text : Text) (record : Bool) :
    Turn.Reports (Machine.host k.counting body.counting) (fun m => m.world.2)
      ((Turn.start s m m.world.2 schedule).meetAll (Machine.host k.counting body.counting)
        (fun m => m.world.2) stimuli) text record := by
  have hears := Machine.host_hears k body
  have hfair : Turn.Fair (Machine.host k.counting body.counting) (fun m => m.world.2)
      Machine.RemembersInterrupts (Turn.start s m m.world.2 schedule) := {
    sound := hremembers
    before := Nat.le_add_left _ _
    flag := by
      change m.interrupted = true ↔ m.world.2 < 0 + m.world.2
      rw [hclear]
      simp }
  exact (hfair.meetAll hears stimuli).reports hears text record

/-- Of the signals only the interrupt is remembered by the interpreter at its place of work. -/
theorem Station.disposition_eq_remembered_iff (signal : Nat) :
    Station.disposition signal = .remembered ↔ signal = Session.interruptSignal := by
  unfold Station.disposition
  by_cases h : signal = 2
  · simp [h, Session.interruptSignal]
  · rw [if_neg h]
    split <;> simp [h, Session.interruptSignal]

/-- Two interrupts arrive before a built-in, which leaves them; then a pipeline is run, and an interrupt
follows the end of each of its two children: one line end reports all four. -/
theorem interrupts_reported_once_of_four :
    let m : Machine (Bench × Nat) :=
      { (Bench.machine 9 []).map (·, 0) with disposition := Station.disposition }
    let host := Machine.host Kernel.bench.counting (commandBody Kernel.bench).counting
    let turn := (Turn.start (Session.start 10) m m.world.2 []).meetAll host (fun m => m.world.2)
      [.interrupt, .interrupt, .line "history".toList false]
    ∃ launches, (turn.session.dispatch host.watched "a|b".toList true turn.world).2.deeds =
      List.replicate launches .launched ++ [.printed [10]] := by
  intro m host turn
  have hreports : Turn.Reports host (fun m => m.world.2) turn "a|b".toList true :=
    interrupts_reported_once Kernel.bench (commandBody Kernel.bench) (Session.start 10) (m := m)
      Station.disposition_eq_remembered_iff rfl [] _ _ _
  have hrun : Line.toRun? "a|b".toList = some (.pipeline [⟨[['a']]⟩, ⟨[['b']]⟩]) := by rfl
  have hbefore : turn.world.deeds = [] := by decide +kernel
  have harrived : turn.asked < Watched.arrived (fun m => m.world.2)
      ((Line.pipeline [⟨[['a']]⟩, ⟨[['b']]⟩]).run host.watched.toLauncher turn.world).2 := by
    decide +kernel
  clear_value turn
  obtain ⟨⟨launches, hdeeds⟩, -⟩ := hreports.ran _ hrun _ _ rfl rfl
  rw [if_pos (.inl harrived), hbefore, List.nil_append] at hdeeds
  exact ⟨launches, hdeeds⟩

end LineShell
