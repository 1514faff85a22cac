import LineShell.Kernel.Host
import LineShell.Proofs.Kernel.Children
import LineShell.Proofs.Kernel.Entries

/-!
# A chronicle of output

What happens to the output of the interpreter is a chronicle, made by what the interpreter does step by
step.

* `Kernel.SpeechLaws`: the system keeps a list of all that reaches it, by a write of the interpreter or of a
  child (`Receipt.written`) or from a program (`Receipt.spoken`).
* `Machine.Step`: one thing that the interpreter does, with its entries. Whatever changes the state that
  processes share is a step. A fork is the bare one: it copies the buffer as it is, and the child does what
  children of the interpreter do (`ChildOf`).
* `Machine.Path`: steps one after another, with their entries.
* `Path.buffered`: the buffer holds what was printed and not written.
* `Path.handle`: it is written to where standard output led from the beginning.
* `Path.span`: children write between their fork and their reaping (`Entry.Before`).
* `Path.heard_eq`: the entries of a chronicle tell all that reaches the system, in order.

The system is trusted with `Kernel.ChildLaws` and `Kernel.SpeechLaws`.
-/

namespace LineShell

variable {σ : Type u}

/-! ## What reaches the system -/

/-- Programs write these, one after another. -/
def spokenBy (words : List (Pid × Bytes)) : List Entry := words.map fun word => .spoke word.1 word.2

theorem isOf_spokenBy {words : List (Pid × Bytes)} {pids : List Pid} (h : ∀ word ∈ words, word.1 ∈ pids) :
    ∀ e ∈ spokenBy words, ∃ pid ∈ pids, e.IsOf pid := by
  intro e he
  obtain ⟨word, hword, rfl⟩ := List.mem_map.mp he
  exact ⟨word.1, h word hword, .spoke word.2⟩

/-- What a kernel does about what reaches it; `heard` tells that, in order, and `running` tells those
programs that run. -/
structure Kernel.SpeechLaws (k : Kernel σ) (running : σ → List Pid) (heard : σ → List Receipt) : Prop where
  openFile : ∀ {p direction path s handle s'},
    k.openFile p direction path s = .ok (handle, s') → heard s' = heard s
  newPipe : ∀ {s id s'}, k.newPipe s = .ok (id, s') → heard s' = heard s
  fork : ∀ {p s s'}, k.fork p s = .ok s' → heard s' = heard s
  write : ∀ handle bytes s, heard (k.write handle bytes s) = heard s ++ [.written handle bytes]
  start : ∀ {words p s s'}, k.start words p s = .ok s' →
    ∃ more, heard s' = heard s ++ heardFrom (spokenBy more) ∧ ∀ word ∈ more, word.1 ∈ [p.pid]
  await : ∀ fatal p s, ∃ more, heard (k.await fatal p s).2 = heard s ++ heardFrom (spokenBy more) ∧
    ∀ word ∈ more, word.1 ∈ running s

section

variable {k : Kernel σ} {running : σ → List Pid} {heard : σ → List Receipt}

/-- A diagnostic as an entry: none where standard error is closed. -/
def complaint (p : Process) (entry : Handle → Entry) : List Entry :=
  (p.table.get? 2).elim [] fun slot => [entry slot.handle]

theorem mem_complaint {p : Process} {entry : Handle → Entry} {e : Entry} (h : e ∈ complaint p entry) :
    ∃ handle, e = entry handle := by
  unfold complaint at h
  cases hslot : p.table.get? 2 with
  | none =>
    rw [hslot] at h
    exact absurd h List.not_mem_nil
  | some slot =>
    rw [hslot] at h
    exact ⟨slot.handle, List.mem_singleton.mp h⟩

theorem heard_complaint (speech : k.SpeechLaws running heard) (p : Process) (message : Text) (s : σ)
    (entry : Handle → Entry)
    (hentry : ∀ handle, (entry handle).heard = [.written handle (diagnostic message)]) :
    heard (p.write k 2 (diagnostic message) s) = heard s ++ heardFrom (complaint p entry) := by
  unfold Process.write complaint
  cases p.table.get? 2 with
  | none => exact (List.append_nil _).symm
  | some slot =>
    change heard (k.write slot.handle (diagnostic message) s) = heard s ++ ((entry slot.handle).heard ++ [])
    rw [speech.write, hentry, List.append_nil]

/-! ## In a child -/

/-- From one state to another it is heard what some children do themselves. -/
def Does (heard : σ → List Receipt) (pids : List Pid) (s s' : σ) : Prop :=
  ∃ did, heard s' = heard s ++ heardFrom did ∧ ∀ e ∈ did, ∃ pid ∈ pids, e.IsOf pid

theorem Does.nothing {pids : List Pid} {s s' : σ} (h : heard s' = heard s) : Does heard pids s s' :=
  ⟨[], h.trans (List.append_nil _).symm, by simp⟩

theorem Does.diagnose (speech : k.SpeechLaws running heard) (p : Process) (message : Text) {s s' : σ}
    (h : heard s' = heard s) : Does heard [p.pid] s (p.write k 2 (diagnostic message) s') := by
  refine ⟨complaint p (.diagnosed p.pid · message), ?_, fun e he => ?_⟩
  · rw [heard_complaint speech p message s' (.diagnosed p.pid · message) fun _ => rfl, h]
  · obtain ⟨handle, rfl⟩ := mem_complaint he
    exact ⟨p.pid, List.mem_singleton_self _, .diagnosed handle message⟩

/-- What a child of the interpreter does: a command, or a stage of a pipeline. -/
inductive ChildOf (k : Kernel σ) : (Process → σ → ChildResult × Process × σ) → Prop where
  | command (words : List Text) : ChildOf k (commandBody k words)
  | stage (stage : Command) (input : Nat) (pipe : Option Process.PipeEnds) :
      ChildOf k (stageBody k (commandBody k) stage input pipe)

theorem commandBody_does (speech : k.SpeechLaws running heard) (words : List Text) (p : Process) (s : σ) :
    Does heard [p.pid] s (commandBody k words p s).2.2 := by
  have hopening : k.KeepsOpening fun s' => heard s' = heard s :=
    ⟨fun hfile hs => (speech.openFile hfile).trans hs⟩
  have hresolve := resolve_keeps hopening words p (s := s) rfl
  obtain ⟨table, hprocess⟩ := resolve_process k words p s
  unfold commandBody Process.runCommand
  generalize resolve k words p s = resolved at hresolve hprocess ⊢
  obtain ⟨result, p', s'⟩ := resolved
  obtain rfl : p' = { p with table } := hprocess
  cases result with
  | error e => exact .diagnose speech { p with table } e.message hresolve
  | ok args =>
    cases args with
    | nil => exact .nothing hresolve
    | cons command rest =>
      simp only
      cases hlaunch : Process.launch k (command :: rest) { p with table } s' with
      | error e => exact .diagnose speech { p with table } e.message hresolve
      | ok s'' =>
        obtain ⟨more, hmore, hauthors⟩ := speech.start (Process.launch_eq_ok hlaunch)
        refine ⟨spokenBy more, ?_, isOf_spokenBy hauthors⟩
        change heard s'' = heard s ++ _
        rw [hmore, hresolve]

theorem commandBody_output (words : List Text) (p : Process) (s : σ) :
    (commandBody k words p s).2.1.output = p.output := by
  obtain ⟨table, hprocess⟩ := resolve_process k words p s
  unfold commandBody Process.runCommand
  generalize resolve k words p s = resolved at hprocess ⊢
  obtain ⟨result, p', s'⟩ := resolved
  obtain rfl : p' = { p with table } := hprocess
  cases result with
  | error e => rfl
  | ok args =>
    cases args with
    | nil => rfl
    | cons command rest =>
      simp only
      cases Process.launch k (command :: rest) { p with table } s' <;> rfl

namespace ChildOf

variable {body : Process → σ → ChildResult × Process × σ}

theorem accounts {interpreter : Pid} (h : ChildOf k body) (laws : k.ChildLaws interpreter running) :
    Accounts interpreter running body := by
  cases h with
  | command words => exact commandBody_accounts laws words
  | stage stage input pipe =>
    exact stageBody_accounts laws (commandBody_accounts laws) stage input pipe

/-- It is heard what the child itself does, -/
theorem does (h : ChildOf k body) (speech : k.SpeechLaws running heard) (p : Process) (s : σ) :
    Does heard [p.pid] s (body p s).2.2 := by
  cases h with
  | command words => exact commandBody_does speech words p s
  | stage stage input pipe =>
    unfold stageBody
    cases p.table.forStage input pipe with
    | ok table => exact commandBody_does speech stage.words { p with table } s
    | error failed =>
      exact .diagnose speech p (stage.name?.getD [] ++ ": ".toList ++ failed.1 ++ ": ".toList ++
        failed.2.describe) rfl

/-- and it prints nothing. -/
theorem output (h : ChildOf k body) (p : Process) (s : σ) : (body p s).2.1.output = p.output := by
  cases h with
  | command words => exact commandBody_output words p s
  | stage stage input pipe =>
    unfold stageBody
    cases p.table.forStage input pipe with
    | ok table => exact commandBody_output stage.words { p with table } s
    | error failed => rfl

end ChildOf

end

namespace Machine

/-! ## Steps -/

/-- What a child leaves behind: if it has not become a program, it writes out its copy. -/
def leaving (pid : Pid) : ChildResult × Process × σ → List Entry
  | (.replaced, _, _) => []
  | (.returned _, p, _) => [.left pid ((p.table.get? 1).map Slot.handle) p.output]

theorem mem_leaving {pid : Pid} {ran : ChildResult × Process × σ} {e : Entry} (h : e ∈ leaving pid ran) :
    ∃ target, e = .left pid target ran.2.1.output := by
  obtain ⟨result, p, s⟩ := ran
  cases result with
  | replaced => exact absurd h List.not_mem_nil
  | returned code => exact ⟨_, List.mem_singleton.mp h⟩

/-- Of a child's copy of the buffer it is heard what there is of it. -/
theorem heard_flush {k : Kernel σ} {running : σ → List Pid} {heard : σ → List Receipt}
    (speech : k.SpeechLaws running heard) (pid : Pid) (p : Process) (s : σ) :
    heard (p.flush k s).2 =
      heard s ++ (Entry.left pid ((p.table.get? 1).map Slot.handle) p.output).heard := by
  unfold Process.flush
  cases p.output with
  | nil => cases p.table.get? 1 <;> exact (List.append_nil _).symm
  | cons byte rest =>
    unfold Process.write
    simp only
    cases p.table.get? 1 with
    | none => exact (List.append_nil _).symm
    | some slot => exact speech.write slot.handle (byte :: rest) s

theorem heard_finish {k : Kernel σ} {running : σ → List Pid} {heard : σ → List Receipt}
    (speech : k.SpeechLaws running heard) (pid : Pid) (ran : ChildResult × Process × σ) :
    heard (Process.finish k ran).2 = heard ran.2.2 ++ heardFrom (leaving pid ran) := by
  obtain ⟨result, p, s⟩ := ran
  cases result with
  | replaced => exact (List.append_nil _).symm
  | returned code =>
    change heard (p.flush k s).2 = heard s ++ (_ ++ [])
    rw [heard_flush speech pid, List.append_nil]

/-- One thing that the interpreter does, with its entries. -/
inductive Step (k : Kernel σ) (running : σ → List Pid) (heard : σ → List Receipt) :
    Machine σ → List Entry → Machine σ → Prop where
  | print (m : Machine σ) (bytes : Bytes) : Step k running heard m [.printed bytes] (m.hold bytes)
  | write (m : Machine σ) {slot : Slot} (hslot : m.process.table.get? 1 = some slot)
      {bytes rest : Bytes} (houtput : m.process.output = bytes ++ rest) :
      Step k running heard m [.wrote slot.handle bytes]
        { m.setOutput rest with world := k.write slot.handle bytes m.world }
  | grant (m : Machine σ) {world : σ} (h : k.fork m.process m.world = .ok world) :
      Step k running heard m [] { m with world }
  | fork (m : Machine σ) {body : Process → σ → ChildResult × Process × σ} (hbody : ChildOf k body)
      {did : List Entry} (hdid : heard (body m.child m.world).2.2 = heard m.world ++ heardFrom did)
      (hown : ∀ e ∈ did, ∃ pid ∈ [m.nextPid], e.IsOf pid) :
      Step k running heard m
        (.forked m.nextPid m.process.output :: (did ++ leaving m.nextPid (body m.child m.world)))
        (m.fork k body).2
  | pipe (m : Machine σ) {ends : Process.PipeEnds} {process : Process} {world : σ}
      (h : m.process.openPipe k m.world = .ok (ends, process, world)) :
      Step k running heard m [] { m with process, world }
  | close (m : Machine σ) {fd : Nat} (h : fd ≠ 1) : Step k running heard m [] (m.close fd)
  | complain (m : Machine σ) (message : Text) :
      Step k running heard m (complaint m.process (.complained · message)) (m.complain k message)
  | await (m : Machine σ) {more : List (Pid × Bytes)}
      (hmore : heard (m.await k).world = heard m.world ++ heardFrom (spokenBy more))
      (hauthors : ∀ word ∈ more, word.1 ∈ running m.world) :
      Step k running heard m (spokenBy more) (m.await k)
  | reap (m : Machine σ) {pids : List Pid} {outcomes : List WaitOutcome}
      (h : (reapedPids m.outcomes).Perm (pids ++ reapedPids outcomes)) :
      Step k running heard m (pids.map .reaped) { m with outcomes }
  | remember (m : Machine σ) (interrupted : Bool) : Step k running heard m [] { m with interrupted }

/-- Steps one after another, with their entries. -/
inductive Path (k : Kernel σ) (running : σ → List Pid) (heard : σ → List Receipt) :
    Machine σ → List Entry → Machine σ → Prop where
  | refl (m : Machine σ) : Path k running heard m [] m
  | tail {m m' m'' : Machine σ} {entries later : List Entry} (h : Path k running heard m entries m')
      (hstep : Step k running heard m' later m'') : Path k running heard m (entries ++ later) m''

section

variable {k : Kernel σ} {running : σ → List Pid} {heard : σ → List Receipt}
  {m m' m'' : Machine σ} {entries later : List Entry}

theorem Step.path (h : Step k running heard m entries m') : Path k running heard m entries m' :=
  .tail (.refl m) h

theorem Path.trans (h : Path k running heard m entries m') (h' : Path k running heard m' later m'') :
    Path k running heard m (entries ++ later) m'' := by
  induction h' with
  | refl => rwa [List.append_nil]
  | tail _ hstep ih =>
    rw [← List.append_assoc]
    exact .tail ih hstep

theorem Step.pid (h : Step k running heard m entries m') : m'.process.pid = m.process.pid := by
  cases h with
  | print bytes => rfl
  | write hslot houtput => rfl
  | grant h => rfl
  | fork hbody hdid hown => rfl
  | pipe h =>
    obtain ⟨id, table, -, rfl, -⟩ := Process.openPipe_eq_ok h
    rfl
  | close h => rfl
  | complain message => rfl
  | await hmore hauthors => exact congrArg Process.pid (await_frame k m).process
  | reap h => rfl
  | remember interrupted => rfl

theorem Path.pid (h : Path k running heard m entries m') : m'.process.pid = m.process.pid := by
  induction h with
  | refl => rfl
  | tail _ hstep ih => exact hstep.pid.trans ih

/-! ## What the buffer holds -/

theorem buffered_leaving (b : Bytes) (pid : Pid) (ran : ChildResult × Process × σ) :
    Buffered b (leaving pid ran) b := by
  obtain ⟨result, p, s⟩ := ran
  cases result with
  | replaced => exact .nil b
  | returned code => exact .cons rfl (.nil b)

theorem Step.buffered (h : Step k running heard m entries m') :
    Buffered m.process.output entries m'.process.output := by
  cases h with
  | print bytes => exact .cons rfl (.nil _)
  | @write slot hslot bytes rest houtput => exact .cons houtput (.nil rest)
  | grant h => exact .nil _
  | fork hbody hdid hown =>
    exact .cons ⟨rfl, rfl⟩ ((Buffered.of_isOf _ hown).append (buffered_leaving _ _ _))
  | pipe h =>
    obtain ⟨id, table, -, rfl, -⟩ := Process.openPipe_eq_ok h
    exact .nil _
  | close h => exact .nil _
  | complain message =>
    unfold complaint
    cases m.process.table.get? 2 with
    | none => exact .nil _
    | some slot => exact .cons rfl (.nil _)
  | await hmore hauthors =>
    rw [(await_frame k m).process]
    exact Buffered.of_isOf _ (isOf_spokenBy hauthors)
  | reap h => exact .of_reaped _ _
  | remember interrupted => exact .nil _

/-- **The buffer holds what was printed and not written.** -/
theorem Path.buffered (h : Path k running heard m entries m') :
    Buffered m.process.output entries m'.process.output := by
  induction h with
  | refl => exact .nil _
  | tail _ hstep ih => exact ih.append hstep.buffered

/-! ## Where it is written -/

theorem Step.handle {slot : Slot} (hslot : m.process.table.get? 1 = some slot)
    (h : Step k running heard m entries m') :
    m'.process.table.get? 1 = some slot ∧
      ∀ handle bytes, .wrote handle bytes ∈ entries → handle = slot.handle := by
  have hnone {entries : List Entry} (h : ∀ e ∈ entries, ∀ handle bytes, e ≠ .wrote handle bytes) :
      ∀ handle bytes, .wrote handle bytes ∈ entries → handle = slot.handle :=
    fun handle bytes hmem => absurd rfl (h _ hmem handle bytes)
  cases h with
  | print bytes => exact ⟨hslot, hnone (by simp)⟩
  | @write other hother bytes rest houtput =>
    refine ⟨hslot, fun handle written hmem => ?_⟩
    rw [hslot] at hother
    obtain rfl := Option.some.inj hother
    exact (Entry.wrote.inj (List.mem_singleton.mp hmem)).1
  | grant h => exact ⟨hslot, hnone (by simp)⟩
  | fork hbody hdid hown =>
    refine ⟨hslot, hnone fun e he => ?_⟩
    rcases List.mem_cons.mp he with rfl | he
    · simp
    · rcases List.mem_append.mp he with he | he
      · obtain ⟨pid, -, hof⟩ := hown e he
        exact hof.cases.2.2.2.2.1
      · obtain ⟨target, rfl⟩ := mem_leaving he
        simp
  | pipe h =>
    obtain ⟨id, table, -, rfl, hopened⟩ := Process.openPipe_eq_ok h
    refine ⟨?_, hnone (by simp)⟩
    change table.get? 1 = some slot
    rw [hopened.get?_of_open (by rw [hslot]; simp), hslot]
  | @close fd h =>
    refine ⟨?_, hnone (by simp)⟩
    rw [close_table, Table.get?_close, if_neg (Ne.symm h)]
    exact hslot
  | complain message =>
    refine ⟨hslot, hnone fun e he => ?_⟩
    obtain ⟨handle, rfl⟩ := mem_complaint he
    simp
  | await hmore hauthors =>
    rw [(await_frame k m).process]
    refine ⟨hslot, hnone fun e he => ?_⟩
    obtain ⟨pid, -, hof⟩ := isOf_spokenBy hauthors e he
    exact hof.cases.2.2.2.2.1
  | reap h => exact ⟨hslot, hnone (by simp)⟩
  | remember interrupted => exact ⟨hslot, hnone (by simp)⟩

/-- **The interpreter writes to where its standard output led at the beginning**, and nowhere else. -/
theorem Path.handle {slot : Slot} (hslot : m.process.table.get? 1 = some slot)
    (h : Path k running heard m entries m') :
    m'.process.table.get? 1 = some slot ∧
      ∀ handle bytes, .wrote handle bytes ∈ entries → handle = slot.handle := by
  induction h with
  | refl => exact ⟨hslot, fun _ _ hmem => absurd hmem List.not_mem_nil⟩
  | tail _ hstep ih =>
    obtain ⟨hstill, hbefore⟩ := ih
    obtain ⟨hafter, hlater⟩ := hstep.handle hstill
    refine ⟨hafter, fun handle bytes hmem => ?_⟩
    rcases List.mem_append.mp hmem with hmem | hmem
    · exact hbefore handle bytes hmem
    · exact hlater handle bytes hmem

/-! ## When children write -/

/-- The children that are unreaped are so once each, and those to come have none of their numbers. -/
structure Sound (running : σ → List Pid) (m : Machine σ) : Prop where
  fresh : m.Fresh running
  nodup : (m.unreaped running).Nodup

/-- From one machine to a later one, children write between their fork and their reaping. -/
structure Span (running : σ → List Pid) (m : Machine σ) (entries : List Entry) (m' : Machine σ) :
    Prop where
  later : m.nextPid ≤ m'.nextPid
  sound : m'.Sound running
  /-- No child is unreaped that was reaped before. -/
  kept : ∀ pid ∈ m'.unreaped running, pid ∈ m.unreaped running ∨ m.nextPid ≤ pid
  authors : ∀ e ∈ entries, ∀ pid, e.author? = some pid →
    (pid ∈ m.unreaped running ∨ m.nextPid ≤ pid) ∧ pid < m'.nextPid
  reaped : ∀ pid, .reaped pid ∈ entries → pid ∉ m'.unreaped running ∧ pid < m'.nextPid
  forked : ∀ pid copy, .forked pid copy ∈ entries → m.nextPid ≤ pid
  before : entries.Pairwise Entry.Before

theorem Span.refl (h : m.Sound running) : Span running m [] m where
  later := Nat.le_refl _
  sound := h
  kept _ hpid := .inl hpid
  authors _ he := absurd he List.not_mem_nil
  reaped _ he := absurd he List.not_mem_nil
  forked _ _ he := absurd he List.not_mem_nil
  before := .nil

theorem Span.trans (h : Span running m entries m') (h' : Span running m' later m'') :
    Span running m (entries ++ later) m'' where
  later := Nat.le_trans h.later h'.later
  sound := h'.sound
  kept pid hpid := by
    have hnext := h.later
    rcases h'.kept pid hpid with hpid | hpid
    · exact h.kept pid hpid
    · exact .inr (Nat.le_trans hnext hpid)
  authors e he pid hpid := by
    have hnext := h.later
    have hnext' := h'.later
    rcases List.mem_append.mp he with he | he
    · obtain ⟨hearlier, hlt⟩ := h.authors e he pid hpid
      exact ⟨hearlier, Nat.lt_of_lt_of_le hlt hnext'⟩
    · obtain ⟨hearlier, hlt⟩ := h'.authors e he pid hpid
      rcases hearlier with hunreaped | hle
      · exact ⟨h.kept pid hunreaped, hlt⟩
      · exact ⟨.inr (Nat.le_trans hnext hle), hlt⟩
  reaped pid he := by
    rcases List.mem_append.mp he with he | he
    · obtain ⟨hgone, hlt⟩ := h.reaped pid he
      refine ⟨fun hpid => ?_, Nat.lt_of_lt_of_le hlt h'.later⟩
      rcases h'.kept pid hpid with hpid | hpid
      · exact hgone hpid
      · exact absurd hlt (Nat.not_lt.mpr hpid)
    · exact h'.reaped pid he
  forked pid copy he := by
    rcases List.mem_append.mp he with he | he
    · exact h.forked pid copy he
    · exact Nat.le_trans h.later (h'.forked pid copy he)
  before := by
    refine List.pairwise_append.mpr ⟨h.before, h'.before, fun e he e' he' => ⟨?_, ?_⟩⟩
    · -- what was reaped first is unreaped no more, and no child to come has its number
      rintro pid rfl hauthor
      obtain ⟨hgone, hlt⟩ := h.reaped pid he
      rcases (h'.authors e' he' pid hauthor).1 with hpid | hpid
      · exact hgone hpid
      · exact absurd hlt (Nat.not_lt.mpr hpid)
    · -- what is forked later has a number of its own
      rintro pid copy rfl hauthor
      have hlt := (h.authors e he pid hauthor).2
      exact absurd hlt (Nat.not_lt.mpr (h'.forked pid copy he'))

/-- A step that leaves the same children unreaped, and in which none but these write. -/
theorem Span.of_perm (h : m.Sound running) (hnext : m'.nextPid = m.nextPid)
    (hperm : (m'.unreaped running).Perm (m.unreaped running))
    (hauthors : ∀ e ∈ entries, ∀ pid, e.author? = some pid → pid ∈ m.unreaped running)
    (hreaped : ∀ e ∈ entries, ∀ pid, e ≠ .reaped pid)
    (hforked : ∀ e ∈ entries, ∀ pid copy, e ≠ .forked pid copy) : Span running m entries m' where
  later := Nat.le_of_eq hnext.symm
  sound := {
    fresh := fun pid hmem => by
      rw [hnext]
      exact h.fresh pid (hperm.mem_iff.mp hmem)
    nodup := hperm.nodup_iff.mpr h.nodup }
  kept pid hmem := .inl (hperm.mem_iff.mp hmem)
  authors e he pid hauthor := by
    have hmem := hauthors e he pid hauthor
    rw [hnext]
    exact ⟨.inl hmem, h.fresh pid hmem⟩
  reaped pid he := absurd rfl (hreaped _ he pid)
  forked pid copy he := absurd rfl (hforked _ he pid copy)
  before := List.pairwise_of_forall_mem_list fun e he e' he' =>
    .of_neither (hreaped e he) (hforked e' he')

theorem fork_span (laws : k.ChildLaws m.process.pid running) (h : m.Sound running)
    {body : Process → σ → ChildResult × Process × σ} (hbody : ChildOf k body) {did : List Entry}
    (hown : ∀ e ∈ did, ∃ pid ∈ [m.nextPid], e.IsOf pid) (copy : Bytes) (ran : ChildResult × Process × σ) :
    Span running m (.forked m.nextPid copy :: (did ++ leaving m.nextPid ran)) (m.fork k body).2 := by
  have hnew : m.nextPid ∉ m.unreaped running := fun hmem => Nat.lt_irrefl _ (h.fresh _ hmem)
  have hperm := fork_unreaped laws (hbody.accounts laws) rfl hnew
  have hlater : ∀ e ∈ did ++ leaving m.nextPid ran, e.author? = some m.nextPid := by
    intro e he
    rcases List.mem_append.mp he with he | he
    · obtain ⟨pid, hpid, hof⟩ := hown e he
      obtain rfl := List.mem_singleton.mp hpid
      exact hof.cases.1
    · obtain ⟨target, rfl⟩ := mem_leaving he
      rfl
  have hneither : ∀ e ∈ did ++ leaving m.nextPid ran,
      (∀ pid, e ≠ .reaped pid) ∧ ∀ pid copy, e ≠ .forked pid copy := by
    intro e he
    have hauthor := hlater e he
    refine ⟨?_, ?_⟩
    · rintro pid rfl
      cases hauthor
    · rintro pid copy rfl
      cases hauthor
  exact {
    later := Nat.le_succ _
    sound := {
      fresh := fun pid hmem => by
        rcases List.mem_cons.mp (hperm.mem_iff.mp hmem) with rfl | hmem
        · exact Nat.lt_succ_self _
        · exact Nat.lt_succ_of_lt (h.fresh pid hmem)
      nodup := hperm.nodup_iff.mpr (List.nodup_cons.mpr ⟨hnew, h.nodup⟩) }
    kept := fun pid hmem => by
      rcases List.mem_cons.mp (hperm.mem_iff.mp hmem) with rfl | hmem
      · exact .inr (Nat.le_refl _)
      · exact .inl hmem
    authors := fun e he pid hauthor => by
      rcases List.mem_cons.mp he with rfl | he
      · cases hauthor
      · obtain rfl := Option.some.inj ((hlater e he).symm.trans hauthor)
        exact ⟨.inr (Nat.le_refl _), Nat.lt_succ_self _⟩
    reaped := fun pid he => by
      rcases List.mem_cons.mp he with heq | he
      · cases heq
      · exact absurd rfl ((hneither _ he).1 pid)
    forked := fun pid copy he => by
      rcases List.mem_cons.mp he with heq | he
      · obtain ⟨rfl, -⟩ := Entry.forked.inj heq
        exact Nat.le_refl _
      · exact absurd rfl ((hneither _ he).2 pid copy)
    before := by
      refine List.pairwise_cons.mpr ⟨fun e he => ?_, ?_⟩
      · exact .of_neither (by simp) (hneither e he).2
      · exact List.pairwise_of_forall_mem_list fun e he e' he' =>
          .of_neither (hneither e he).1 (hneither e' he').2 }

theorem reap_span (h : m.Sound running) {pids : List Pid} {outcomes : List WaitOutcome}
    (hreap : (reapedPids m.outcomes).Perm (pids ++ reapedPids outcomes)) :
    Span running m (pids.map .reaped) { m with outcomes } := by
  have hperm : (m.unreaped running).Perm (pids ++ unreaped running { m with outcomes }) := by
    have happend := hreap.append_right (running m.world)
    rwa [List.append_assoc] at happend
  obtain ⟨-, hleft, hapart⟩ := List.nodup_append.mp (hperm.nodup_iff.mp h.nodup)
  have hkept : ∀ pid ∈ unreaped running { m with outcomes }, pid ∈ m.unreaped running :=
    fun pid hmem => hperm.mem_iff.mpr (List.mem_append_right pids hmem)
  exact {
    later := Nat.le_refl _
    sound := ⟨fun pid hmem => h.fresh pid (hkept pid hmem), hleft⟩
    kept := fun pid hmem => .inl (hkept pid hmem)
    authors := fun e he pid hauthor => by
      obtain ⟨other, -, rfl⟩ := List.mem_map.mp he
      cases hauthor
    reaped := fun pid he => by
      obtain ⟨other, hother, heq⟩ := List.mem_map.mp he
      obtain rfl := Entry.reaped.inj heq
      exact ⟨fun hmem => hapart other hother other hmem rfl,
        h.fresh other (hperm.mem_iff.mpr (List.mem_append_left _ hother))⟩
    forked := fun pid copy he => by
      obtain ⟨other, -, heq⟩ := List.mem_map.mp he
      cases heq
    before := List.pairwise_of_forall_mem_list fun e he e' he' => by
      obtain ⟨other, -, rfl⟩ := List.mem_map.mp he
      obtain ⟨other', -, rfl⟩ := List.mem_map.mp he'
      exact ⟨fun _ _ => by simp [Entry.author?], fun _ _ heq => by cases heq⟩ }

theorem Step.span (laws : k.ChildLaws m.process.pid running) (hm : m.Sound running)
    (h : Step k running heard m entries m') : Span running m entries m' := by
  have hworld {world : σ} (h : (running world).Perm (running m.world)) :
      (reapedPids m.outcomes ++ running world).Perm (m.unreaped running) := h.append_left _
  cases h with
  | print bytes =>
    exact .of_perm hm rfl (.refl _) (by simp [Entry.author?]) (by simp) (by simp)
  | @write slot hslot bytes rest houtput =>
    exact .of_perm hm rfl (hworld ((laws.keeps _).write _ _ _ (.refl _))) (by simp [Entry.author?])
      (by simp) (by simp)
  | grant h => exact .of_perm hm rfl (hworld ((laws.keeps _).fork h (.refl _))) (by simp) (by simp) (by simp)
  | fork hbody hdid hown => exact fork_span laws hm hbody hown _ _
  | pipe h =>
    obtain ⟨id, table, hnew, rfl, -⟩ := Process.openPipe_eq_ok h
    exact .of_perm hm rfl (hworld (laws.newPipe hnew)) (by simp) (by simp) (by simp)
  | close h => exact .of_perm hm rfl (.refl _) (by simp) (by simp) (by simp)
  | complain message =>
    have hkept := Process.write_keeps (laws.keeps (running m.world)) m.process 2 (diagnostic message)
      (s := m.world) (.refl _)
    refine .of_perm hm rfl (hworld hkept) (fun e he pid hauthor => ?_) (fun e he pid => ?_)
      (fun e he pid copy => ?_)
    · obtain ⟨handle, rfl⟩ := mem_complaint he
      cases hauthor
    · obtain ⟨handle, rfl⟩ := mem_complaint he
      simp
    · obtain ⟨handle, rfl⟩ := mem_complaint he
      simp
  | await hmore hauthors =>
    have hframe := await_frame k m
    have hof := isOf_spokenBy hauthors
    refine .of_perm hm hframe.nextPid (await_unreaped laws rfl) (fun e he pid hauthor => ?_)
      (fun e he => ?_) (fun e he => ?_)
    · obtain ⟨other, hother, hspoke⟩ := hof e he
      obtain rfl := Option.some.inj (hspoke.cases.1.symm.trans hauthor)
      exact List.mem_append_right _ hother
    · obtain ⟨other, -, hspoke⟩ := hof e he
      exact hspoke.cases.2.2.2.2.2.1
    · obtain ⟨other, -, hspoke⟩ := hof e he
      exact hspoke.cases.2.2.2.2.2.2
  | reap h => exact reap_span hm h
  | remember interrupted => exact .of_perm hm rfl (.refl _) (by simp) (by simp) (by simp)

/-- **Children write between their fork and their reaping**, along any path. -/
theorem Path.span (laws : k.ChildLaws m.process.pid running) (hm : m.Sound running)
    (h : Path k running heard m entries m') : Span running m entries m' := by
  induction h with
  | refl => exact .refl hm
  | tail hpath hstep ih =>
    have hspan := ih
    exact hspan.trans (hstep.span (hpath.pid ▸ laws) hspan.sound)

/-! ## What is heard -/

theorem Step.heard_eq (speech : k.SpeechLaws running heard) (h : Step k running heard m entries m') :
    heard m'.world = heard m.world ++ heardFrom entries := by
  cases h with
  | print bytes => exact (List.append_nil _).symm
  | @write slot hslot bytes rest houtput => exact speech.write slot.handle bytes m.world
  | grant h => exact (speech.fork h).trans (List.append_nil _).symm
  | @fork body hbody did hdid hown =>
    change heard (Process.finish k (body m.child m.world)).2 = heard m.world ++ heardFrom (did ++ leaving _ _)
    rw [heard_finish speech m.nextPid, hdid, heardFrom_append, List.append_assoc]
  | pipe h =>
    obtain ⟨id, table, hnew, rfl, -⟩ := Process.openPipe_eq_ok h
    exact (speech.newPipe hnew).trans (List.append_nil _).symm
  | close h => exact (List.append_nil _).symm
  | complain message =>
    exact heard_complaint speech m.process message m.world (.complained · message) fun _ => rfl
  | await hmore hauthors => exact hmore
  | reap h => rw [heardFrom_reaped, List.append_nil]
  | remember interrupted => exact (List.append_nil _).symm

/-- **A chronicle tells all that reaches the system**, in order. -/
theorem Path.heard_eq (speech : k.SpeechLaws running heard) (h : Path k running heard m entries m') :
    heard m'.world = heard m.world ++ heardFrom entries := by
  induction h with
  | refl => exact (List.append_nil _).symm
  | tail _ hstep ih => rw [hstep.heard_eq speech, ih, heardFrom_append, List.append_assoc]

end

end Machine

end LineShell
