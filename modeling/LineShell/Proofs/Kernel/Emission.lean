import LineShell.Kernel.Host
import LineShell.Proofs.Kernel.Chronicle
import LineShell.Proofs.Text.Utf8

/-!
# Printing, forking and waiting

Whatever commands the interpreter runs, it does so by a path of steps in which every fork finds the
buffer empty, as long as its standard output takes what is written to it.

* `Kernel.Takes`: a condition under which it does, which nothing that the system does puts an end to.
* `Machine.Emission`: such a path. `Machine.Emits` says what is printed along it, and `Machine.Prints` leaves
  open whether anything of that stays in the buffer.
* `Machine.flush_emits`, `Machine.writeOut_prints`: flushing, and printing, which writes whole lines out.
* `Machine.forked_emits`: a fork flushes first, so that the child has nothing of the buffer.
* `Machine.launcher_emits`: from these and from waiting, through the stages of a pipeline, to launches.
-/

namespace LineShell

variable {σ : Type u}

/-! ## Standard output that takes what is written -/

/-- As long as a predicate holds, all that is written to where a handle leads is taken; and whatever the
system does, the predicate goes on to hold. -/
structure Kernel.Takes (k : Kernel σ) (handle : Handle) (P : σ → Prop) : Prop extends k.KeepsAll P where
  newPipe : ∀ {s id s'}, k.newPipe s = .ok (id, s') → P s → P s'
  await : ∀ fatal p s, P s → P (k.await fatal p s).2
  takes : ∀ {s}, P s → ∀ bytes, k.fault handle bytes s = none

theorem ChildOf.keeps {k : Kernel σ} {P : σ → Prop} {body : Process → σ → ChildResult × Process × σ}
    (h : ChildOf k body) (hkeeps : k.KeepsAll P) (p : Process) {s : σ} (hs : P s) : P (body p s).2.2 := by
  cases h with
  | command words => exact Process.runCommand_keeps hkeeps words p hs
  | stage stage input pipe =>
    have hcommand (words : List Text) (p : Process) (s : σ) (hs : P s) : P (commandBody k words p s).2.2 :=
      Process.runCommand_keeps hkeeps words p hs
    exact stageBody_keeps hkeeps.toKeeps hcommand stage input pipe p hs

/-! ## Waiting uses outcomes up -/

/-- Waiting for several children uses up a beginning of the outcomes. -/
theorem reap_suffix {pids : List Pid} {outcomes rest : List WaitOutcome}
    {result : Except Errno (List (Pid × Status))} (h : reap pids outcomes = some (result, rest)) :
    ∃ used, outcomes = used ++ rest := by
  induction outcomes generalizing pids result rest with
  | nil =>
    cases pids with
    | nil =>
      obtain ⟨-, rfl⟩ := Prod.mk.inj (Option.some.inj h)
      exact ⟨[], rfl⟩
    | cons first others => cases h
  | cons outcome outcomes ih =>
    cases pids with
    | nil =>
      obtain ⟨-, rfl⟩ := Prod.mk.inj (Option.some.inj h)
      exact ⟨[], rfl⟩
    | cons first others =>
      have hlater {pids : List Pid} {result : Except Errno (List (Pid × Status))}
          (h : reap pids outcomes = some (result, rest)) : ∃ used, outcome :: outcomes = used ++ rest := by
        obtain ⟨used, hused⟩ := ih h
        exact ⟨outcome :: used, congrArg (outcome :: ·) hused⟩
      cases outcome with
      | failed errno =>
        rw [reap] at h
        split at h
        · exact hlater h
        · split at h
          · obtain ⟨-, rfl⟩ := Prod.mk.inj (Option.some.inj h)
            exact ⟨[.failed errno], rfl⟩
          · obtain ⟨-, rfl⟩ := Prod.mk.inj (Option.some.inj h)
            exact ⟨[.failed errno], rfl⟩
      | reaped pid word =>
        by_cases hpid : pid ∈ first :: others
        · rw [reap_reaped_of_mem hpid, Option.map_eq_some_iff] at h
          obtain ⟨⟨ended, left⟩, hreap, heq⟩ := h
          obtain ⟨-, rfl⟩ := Prod.mk.inj heq
          exact hlater hreap
        · rw [reap_reaped_of_not_mem (List.cons_ne_nil _ _) hpid] at h
          exact hlater h

/-- Waiting for one child takes away at most one end. -/
theorem reapOne_perm (pid : Pid) (outcomes : List WaitOutcome) :
    ∃ pids, (reapedPids outcomes).Perm (pids ++ reapedPids (reapOne pid outcomes).2) := by
  induction outcomes with
  | nil => exact ⟨[], .refl _⟩
  | cons outcome rest ih =>
    cases outcome with
    | failed errno =>
      rw [reapOne]
      split
      · exact ih
      · exact ⟨[], .refl _⟩
    | reaped other word =>
      rw [reapOne]
      split
      · exact ⟨[other], .refl _⟩
      · obtain ⟨pids, hperm⟩ := ih
        refine ⟨pids, ?_⟩
        change (other :: reapedPids rest).Perm (pids ++ other :: reapedPids (reapOne pid rest).2)
        exact (hperm.cons other).trans List.perm_middle.symm

namespace Machine

/-! ## Emissions -/

/-- No child is given anything of the buffer, and none writes anything of it. -/
def Clean (entries : List Entry) : Prop :=
  ∀ e ∈ entries, ∀ copy, e.copy? = some copy → copy = []

/-- A path on which forks find the buffer empty. At its end the buffer is empty again, unless nothing
was printed or written. -/
structure Emission (k : Kernel σ) (running : σ → List Pid) (heard : σ → List Receipt)
    (m : Machine σ) (entries : List Entry) (m' : Machine σ) : Prop where
  path : Path k running heard m entries m'
  clean : Clean entries
  drained : m'.process.output = [] ∨ writtenBytes entries = [] ∧ printedBytes entries = []

/-- From one machine to another the interpreter prints these bytes. -/
def Emits (k : Kernel σ) (running : σ → List Pid) (heard : σ → List Receipt) (m : Machine σ)
    (bytes : Bytes) (m' : Machine σ) : Prop :=
  ∃ entries, Emission k running heard m entries m' ∧ printedBytes entries = bytes

theorem clean_append {entries later : List Entry} (h : Clean entries) (h' : Clean later) :
    Clean (entries ++ later) :=
  List.forall_mem_append.mpr ⟨h, h'⟩

theorem clean_of_isOf {pids : List Pid} {entries : List Entry}
    (h : ∀ e ∈ entries, ∃ pid ∈ pids, e.IsOf pid) : Clean entries := by
  intro e he copy hcopy
  obtain ⟨pid, -, hof⟩ := h e he
  rw [hof.cases.2.2.2.1] at hcopy
  cases hcopy

theorem clean_complaint (p : Process) (message : Text) : Clean (complaint p (.complained · message)) := by
  intro e he copy hcopy
  obtain ⟨handle, rfl⟩ := mem_complaint he
  cases hcopy

theorem clean_reaped (pids : List Pid) : Clean (pids.map .reaped) := by
  intro e he copy hcopy
  obtain ⟨pid, -, rfl⟩ := List.mem_map.mp he
  cases hcopy

section

variable {k : Kernel σ} {running : σ → List Pid} {heard : σ → List Receipt}
  {m m' m'' : Machine σ} {entries later : List Entry} {bytes bytes' : Bytes}

theorem Step.keeps {handle : Handle} {P : σ → Prop} (takes : k.Takes handle P)
    (h : Step k running heard m entries m') (hm : P m.world) : P m'.world := by
  cases h with
  | print bytes => exact hm
  | write hslot houtput => exact takes.write _ _ _ hm
  | grant h => exact takes.fork h hm
  | fork hbody hdid hown =>
    exact fork_keeps takes.toKeeps (fun p _ hs => hbody.keeps takes.toKeepsAll p hs) hm
  | pipe h =>
    obtain ⟨id, table, hnew, rfl, -⟩ := Process.openPipe_eq_ok h
    exact takes.newPipe hnew hm
  | close h => exact hm
  | complain message => exact Process.write_keeps takes.toKeeps _ 2 _ hm
  | await hmore hauthors =>
    rw [await_world]
    exact takes.await _ _ _ hm
  | reap h => exact hm
  | remember interrupted => exact hm

/-- Along a path standard output goes on to take what is written. -/
theorem Path.keeps {handle : Handle} {P : σ → Prop} (takes : k.Takes handle P)
    (h : Path k running heard m entries m') (hm : P m.world) : P m'.world := by
  induction h with
  | refl => exact hm
  | tail _ hstep ih => exact hstep.keeps takes ih

theorem Emission.trans (h : Emission k running heard m entries m')
    (h' : Emission k running heard m' later m'') :
    Emission k running heard m (entries ++ later) m'' where
  path := h.path.trans h'.path
  clean := clean_append h.clean h'.clean
  drained := by
    rcases h'.drained with hempty | ⟨hwritten', hprinted'⟩
    · exact .inl hempty
    · rcases h.drained with hempty | ⟨hwritten, hprinted⟩
      · -- an empty buffer from which nothing is written and to which nothing is printed
        have hbuffer := h'.path.buffered.written_append
        rw [hwritten', hprinted', hempty] at hbuffer
        exact .inl hbuffer
      · right
        rw [writtenBytes_append, printedBytes_append, hwritten, hwritten', hprinted, hprinted']
        exact ⟨rfl, rfl⟩

theorem Emits.refl (m : Machine σ) : Emits k running heard m [] m :=
  ⟨[], ⟨.refl m, by simp [Clean, Entry.copy?], .inr ⟨rfl, rfl⟩⟩, rfl⟩

theorem Emits.trans (h : Emits k running heard m bytes m') (h' : Emits k running heard m' bytes' m'') :
    Emits k running heard m (bytes ++ bytes') m'' := by
  obtain ⟨entries, hemission, rfl⟩ := h
  obtain ⟨later, hlater, rfl⟩ := h'
  exact ⟨entries ++ later, hemission.trans hlater, printedBytes_append entries later⟩

/-- One silent stretch after another. -/
theorem Emits.silent (h : Emits k running heard m [] m') (h' : Emits k running heard m' [] m'') :
    Emits k running heard m [] m'' :=
  h.trans h'

theorem Step.emits (h : Step k running heard m [] m') : Emits k running heard m [] m' :=
  ⟨[], ⟨h.path, by simp [Clean, Entry.copy?], .inr ⟨rfl, rfl⟩⟩, rfl⟩

theorem printedBytes_leaving (pid : Pid) (ran : ChildResult × Process × σ) :
    printedBytes (leaving pid ran) = [] := by
  obtain ⟨result, p, s⟩ := ran
  cases result <;> rfl

/-- Complaining prints nothing. -/
theorem complain_emits (m : Machine σ) (message : Text) :
    Emits k running heard m [] (m.complain k message) := by
  have hnothing : writtenBytes (complaint m.process (.complained · message)) = [] ∧
      printedBytes (complaint m.process (.complained · message)) = [] := by
    unfold complaint
    cases m.process.table.get? 2 <;> exact ⟨rfl, rfl⟩
  exact ⟨_, ⟨(Step.complain m message).path, clean_complaint m.process message, .inr hnothing⟩, hnothing.2⟩

/-! ## Ready to print -/

/-- The interpreter, with its number, where its standard output leads, and what holds so that it takes
what is written. -/
structure Ready (interpreter : Pid) (slot : Slot) (P : σ → Prop) (m : Machine σ) : Prop where
  pid : m.process.pid = interpreter
  slot : m.process.table.get? 1 = some slot
  world : P m.world

variable {interpreter : Pid} {slot : Slot} {P : σ → Prop}

theorem Path.ready (takes : k.Takes slot.handle P) (h : Path k running heard m entries m')
    (hm : m.Ready interpreter slot P) : m'.Ready interpreter slot P where
  pid := h.pid.trans hm.pid
  slot := (h.handle hm.slot).1
  world := h.keeps takes hm.world

theorem Emits.ready (takes : k.Takes slot.handle P) (h : Emits k running heard m bytes m')
    (hm : m.Ready interpreter slot P) : m'.Ready interpreter slot P := by
  obtain ⟨entries, hemission, -⟩ := h
  exact hemission.path.ready takes hm

/-! ## Flushing -/

theorem flush_of_empty (h : m.process.output = []) : m.flush k = m := by
  unfold flush Process.flush
  rw [h]

section

variable (takes : k.Takes slot.handle P) (hm : m.Ready interpreter slot P)

include takes hm

theorem outputFault?_eq_none (bytes : Bytes) : m.process.outputFault? k bytes m.world = none := by
  unfold Process.outputFault?
  rw [hm.slot, Option.bind_some, takes.takes hm.world]
  rfl

theorem flushFault?_eq_none : m.flushFault? k = none := by
  unfold flushFault? Process.flushFault?
  cases m.process.output with
  | nil => rfl
  | cons byte rest =>
    simp only
    rw [outputFault?_eq_none takes hm]
    rfl

theorem flush_eq (h : m.process.output ≠ []) :
    m.flush k =
      { m.setOutput [] with world := k.write slot.handle m.process.output m.world } := by
  have hfault := outputFault?_eq_none takes hm m.process.output
  obtain ⟨byte, rest, hcons⟩ := List.exists_cons_of_ne_nil h
  rw [hcons] at hfault
  simp only [flush, Process.flush, Process.write, hcons, hm.slot, hfault, Option.elim_none, setOutput]

theorem flush_output : (m.flush k).process.output = [] := by
  by_cases hempty : m.process.output = []
  · rw [flush_of_empty hempty, hempty]
  · rw [flush_eq takes hm hempty]
    rfl

/-- Flushing writes the buffer out. -/
theorem flush_emits : Emits k running heard m [] (m.flush k) := by
  by_cases hempty : m.process.output = []
  · rw [flush_of_empty hempty]
    exact .refl m
  · rw [flush_eq takes hm hempty]
    refine ⟨[.wrote slot.handle m.process.output], ⟨?_, by simp [Clean, Entry.copy?], .inl rfl⟩, rfl⟩
    exact (Step.write m hm.slot (List.append_nil _).symm).path

end

/-! ## Printing -/

/-- From one machine to another the interpreter prints these bytes, along a path on which forks find the
buffer empty. -/
def Prints (k : Kernel σ) (running : σ → List Pid) (heard : σ → List Receipt) (m : Machine σ)
    (bytes : Bytes) (m' : Machine σ) : Prop :=
  ∃ entries, Path k running heard m entries m' ∧ Clean entries ∧ printedBytes entries = bytes

theorem Emits.prints (h : Emits k running heard m bytes m') : Prints k running heard m bytes m' := by
  obtain ⟨entries, hemission, hprinted⟩ := h
  exact ⟨entries, hemission.path, hemission.clean, hprinted⟩

theorem Prints.trans (h : Prints k running heard m bytes m') (h' : Prints k running heard m' bytes' m'') :
    Prints k running heard m (bytes ++ bytes') m'' := by
  obtain ⟨entries, hpath, hclean, rfl⟩ := h
  obtain ⟨later, hlater, hclean', rfl⟩ := h'
  exact ⟨entries ++ later, hpath.trans hlater, clean_append hclean hclean', printedBytes_append entries later⟩

/-- What is printed and leaves the buffer empty is emitted. -/
theorem Prints.emits (h : Prints k running heard m bytes m') (hempty : m'.process.output = []) :
    Emits k running heard m bytes m' := by
  obtain ⟨entries, hpath, hclean, hprinted⟩ := h
  exact ⟨entries, ⟨hpath, hclean, .inl hempty⟩, hprinted⟩

theorem Prints.ready (takes : k.Takes slot.handle P) (h : Prints k running heard m bytes m')
    (hm : m.Ready interpreter slot P) : m'.Ready interpreter slot P := by
  obtain ⟨entries, hpath, -⟩ := h
  exact hpath.ready takes hm

theorem hold_prints (m : Machine σ) (bytes : Bytes) : Prints k running heard m bytes (m.hold bytes) :=
  ⟨[.printed bytes], (Step.print m bytes).path, by simp [Clean, Entry.copy?], List.append_nil bytes⟩

/-- What is written past an empty buffer is printed and written out. -/
theorem write_emits (hm : m.Ready interpreter slot P) (hempty : m.process.output = []) (bytes : Bytes) :
    Emits k running heard m bytes (m.write k 1 bytes) := by
  have hbuffer : (m.hold bytes).process.output = bytes ++ [] := by
    change m.process.output ++ bytes = bytes ++ []
    rw [hempty, List.nil_append, List.append_nil]
  have hwrite : m.write k 1 bytes =
      { (m.hold bytes).setOutput [] with world := k.write slot.handle bytes m.world } := by
    have hprocess : m.process = { m.process with output := [] } := by rw [← hempty]
    unfold write Process.write
    rw [hm.slot, hprocess]
    rfl
  have hwritten : Path k running heard (m.hold bytes) [.wrote slot.handle bytes] (m.write k 1 bytes) := by
    rw [hwrite]
    exact (Step.write (m.hold bytes) hm.slot hbuffer).path
  exact ⟨[.printed bytes, .wrote slot.handle bytes],
    ⟨(Step.print m bytes).path.trans hwritten, by simp [Clean, Entry.copy?], .inl hempty⟩,
    List.append_nil bytes⟩

/-- Of printed bytes, what follows the last line end. -/
def unfinished (printed : Bytes) : Bytes := (printed.reverse.takeWhile (· != 10)).reverse

/-- Of printed bytes, the lines that are finished. -/
def finished (printed : Bytes) : Bytes := printed.take (printed.length - (unfinished printed).length)

theorem finished_append_unfinished (printed : Bytes) :
    finished printed ++ unfinished printed = printed := by
  have hsuffix : unfinished printed <:+ printed := by
    unfold unfinished
    rw [← List.reverse_prefix, List.reverse_reverse]
    exact List.takeWhile_prefix (· != 10)
  obtain ⟨front, hfront⟩ := hsuffix
  have hlength : printed.length - (unfinished printed).length = front.length := by
    have hall := congrArg List.length hfront
    rw [List.length_append] at hall
    omega
  have htake : printed.take front.length = front := by
    rw [← hfront]
    exact List.take_left
  unfold finished
  rw [hlength, htake, hfront]

section

variable (takes : k.Takes slot.handle P) (hm : m.Ready interpreter slot P)

include takes hm

theorem flushThen_eq (bytes : Bytes) : m.flushThen k bytes = (none, (m.flush k).hold bytes) := by
  unfold flushThen
  rw [flushFault?_eq_none takes hm]

/-- Where nothing fails, printing writes the finished lines out, and keeps the rest. -/
theorem writeOut_eq (bytes : Bytes) :
    m.writeOut k bytes = (none,
      if finished bytes = [] then
        (if m.process.output.getLast? = some 10 then m.flush k else m).hold (unfinished bytes)
      else ((m.hold (finished bytes)).flush k).hold (unfinished bytes)) := by
  have hheld : (m.hold (finished bytes)).flushThen k (unfinished bytes) =
      (none, ((m.hold (finished bytes)).flush k).hold (unfinished bytes)) :=
    flushThen_eq (m := m.hold (finished bytes)) takes ⟨hm.pid, hm.slot, hm.world⟩ (unfinished bytes)
  unfold writeOut
  change (if (finished bytes).isEmpty then
      if m.process.output.getLast? = some 10 then m.flushThen k (unfinished bytes)
      else (none, m.hold (unfinished bytes))
    else
      let flushed := (m.hold (finished bytes)).flushThen k (unfinished bytes)
      if flushed.1.isSome && m.process.output.isEmpty then
        (flushed.1, { flushed.2 with process := { flushed.2.process with output := [] } })
      else flushed) = _
  by_cases hempty : finished bytes = []
  · rw [if_pos hempty, if_pos (List.isEmpty_iff.mpr hempty), flushThen_eq takes hm]
    split <;> rfl
  · rw [if_neg hempty, if_neg (mt List.isEmpty_iff.mp hempty), hheld]
    rfl

/-- **What is printed goes to the buffer, and from there line by line to standard output.** -/
theorem writeOut_prints (bytes : Bytes) :
    Prints k running heard m bytes (m.writeOut k bytes).2 := by
  have hsplit := finished_append_unfinished bytes
  rw [writeOut_eq takes hm]
  simp only
  split
  · rename_i hempty
    have hflushed : Prints k running heard m []
        (if m.process.output.getLast? = some 10 then m.flush k else m) := by
      split
      · exact (flush_emits takes hm).prints
      · exact (Emits.refl m).prints
    have hprinted := hflushed.trans (hold_prints _ (unfinished bytes))
    rw [hempty] at hsplit
    rwa [hsplit] at hprinted
  · have hheld : Prints k running heard m (finished bytes) (m.hold (finished bytes)) := hold_prints m _
    have hflushed := hheld.trans (flush_emits takes (hheld.ready takes hm)).prints
    have hprinted := hflushed.trans (hold_prints _ (unfinished bytes))
    rwa [List.append_nil, hsplit] at hprinted

theorem print_eq (bytes : Bytes) : m.print k bytes = (m.writeOut k bytes).2 := by
  unfold print
  rw [writeOut_eq takes hm]

/-- A line end is written out at once, with all that is before it. -/
theorem print_lineEnd_emits : Emits k running heard m [10] (m.print k [10]) := by
  rw [print_eq takes hm]
  refine (writeOut_prints takes hm [10]).emits ?_
  rw [writeOut_eq takes hm]
  change ((m.hold [10]).flush k).process.output ++ [] = []
  rw [List.append_nil]
  exact flush_output (m := m.hold [10]) takes ⟨hm.pid, hm.slot, hm.world⟩

/-- **Texts are printed one after another**, none of them in vain. -/
theorem writeAll_prints (texts : List Text) :
    ((output k).writeAll texts m).1 = none ∧
      Prints k running heard m (Utf8.encode texts.flatten) ((output k).writeAll texts m).2 := by
  induction texts generalizing m with
  | nil => exact ⟨rfl, (Emits.refl m).prints⟩
  | cons text rest ih =>
    have hfirst : Prints k running heard m (Utf8.encode text) (m.writeOut k (Utf8.encode text)).2 :=
      writeOut_prints takes hm (Utf8.encode text)
    have hwrite : (output k).write (Utf8.encode text) m = (none, (m.writeOut k (Utf8.encode text)).2) := by
      change m.writeOut k (Utf8.encode text) = _
      rw [writeOut_eq takes hm]
    obtain ⟨hnone, hrest⟩ := ih (hfirst.ready takes hm)
    rw [Writer.writeAll, hwrite, List.flatten_cons, Utf8.encode_append]
    exact ⟨hnone, hfirst.trans hrest⟩

/-- Printing texts leaves nothing in the buffer. -/
theorem print_texts_emits (texts : List Text) :
    ((output k).print texts m).1 = none ∧
      Emits k running heard m (Utf8.encode texts.flatten) ((output k).print texts m).2 := by
  obtain ⟨hnone, hprinted⟩ : _ ∧ Prints k running heard m (Utf8.encode texts.flatten) _ :=
    writeAll_prints takes hm texts
  unfold Writer.print
  generalize (output k).writeAll texts m = written at hnone hprinted
  obtain ⟨fault, m'⟩ := written
  obtain rfl : fault = none := hnone
  have hready := hprinted.ready takes hm
  refine ⟨flushFault?_eq_none takes hready, ?_⟩
  have hflushed := hprinted.trans (flush_emits takes hready).prints
  rw [List.append_nil] at hflushed
  exact hflushed.emits (flush_output takes hready)

end

/-! ## Forking -/

theorem clean_leaving {pid : Pid} {ran : ChildResult × Process × σ} (h : ran.2.1.output = []) :
    Clean (leaving pid ran) := by
  intro e he copy hcopy
  obtain ⟨target, rfl⟩ := mem_leaving he
  exact (Option.some.inj hcopy).symm.trans h

/-- A child that is forked with an empty buffer is given nothing, and so it writes nothing of it. -/
theorem fork_emits (hempty : m.process.output = []) (speech : k.SpeechLaws running heard)
    {body : Process → σ → ChildResult × Process × σ} (hbody : ChildOf k body) :
    Emits k running heard m [] (m.fork k body).2 := by
  obtain ⟨did, hdid, hown⟩ := hbody.does speech m.child m.world
  have hcopy : (body m.child m.world).2.1.output = [] := (hbody.output m.child m.world).trans hempty
  refine ⟨_, ⟨(Step.fork m hbody hdid hown).path, ?_, .inl hempty⟩, ?_⟩
  · refine List.forall_mem_cons.mpr ⟨fun copy hgiven => ?_, ?_⟩
    · exact (Option.some.inj hgiven).symm.trans hempty
    · exact clean_append (clean_of_isOf hown) (clean_leaving hcopy)
  · change printedBytes (did ++ leaving _ _) = []
    rw [printedBytes_append, printedBytes_of_isOf hown, printedBytes_leaving]
    rfl

section

variable (takes : k.Takes slot.handle P) (hm : m.Ready interpreter slot P)

include takes hm

/-- A fork that is granted, -/
theorem granted_emits {world : σ} (hfork : m.Grants k world) :
    Emits k running heard m [] (m.granted k world) :=
  (flush_emits takes hm).silent (Step.grant (m.flush k) hfork).emits

/-- **A fork flushes first**, so that the buffer is empty. -/
theorem forked_emits (speech : k.SpeechLaws running heard)
    {body : Process → σ → ChildResult × Process × σ} (hbody : ChildOf k body) {world : σ}
    (hfork : m.Grants k world) : Emits k running heard m [] ((m.granted k world).fork k body).2 :=
  (granted_emits takes hm hfork).silent
    (fork_emits (m := m.granted k world) (flush_output takes hm) speech hbody)

end

/-! ## Waiting -/

theorem await_emits (speech : k.SpeechLaws running heard) (m : Machine σ) :
    Emits k running heard m [] (m.await k) := by
  obtain ⟨more, hmore, hauthors⟩ := speech.await (fun signal => m.disposition signal == .fatal) m.process
    m.world
  have hof := isOf_spokenBy hauthors
  rw [← await_world] at hmore
  exact ⟨spokenBy more, ⟨(Step.await m hmore hauthors).path, clean_of_isOf hof,
    .inr ⟨writtenBytes_of_isOf hof, printedBytes_of_isOf hof⟩⟩, printedBytes_of_isOf hof⟩

theorem reap_emits (m : Machine σ) {pids : List Pid} {outcomes : List WaitOutcome}
    (h : (reapedPids m.outcomes).Perm (pids ++ reapedPids outcomes)) :
    Emits k running heard m [] { m with outcomes } :=
  ⟨pids.map .reaped, ⟨(Step.reap m h).path, clean_reaped pids,
    .inr ⟨writtenBytes_reaped pids, printedBytes_reaped pids⟩⟩, printedBytes_reaped pids⟩

theorem waitAll_emits (speech : k.SpeechLaws running heard) (pids : List Pid) (m : Machine σ) :
    Emits k running heard m [] (m.waitAll k pids).2 := by
  cases pids with
  | nil => exact .refl m
  | cons pid pids =>
    refine (await_emits speech m).silent ?_
    obtain ⟨⟨result, rest⟩, hreap⟩ := Option.isSome_iff_exists.mp
      (reap_isSome (pid :: pids) (m.await k).outcomes)
    obtain ⟨used, hused⟩ := reap_suffix hreap
    rw [waitAll_cons hreap]
    refine reap_emits (m.await k) (?_ : (reapedPids _).Perm (reapedPids used ++ reapedPids _))
    -- what is left ends in the failure that stands behind the outcomes, if anything is left
    have houtcomes : reapedPids (m.await k).outcomes = reapedPids used ++ reapedPids rest := by
      have hall := congrArg reapedPids hused
      rw [reapedPids_append, reapedPids_append] at hall
      simpa using hall
    have hlast : reapedPids rest.dropLast = reapedPids rest := by
      rcases List.eq_nil_or_concat rest with rfl | ⟨front, last, rfl⟩
      · rfl
      · have hend : last = .failed .noChild := by
          have hlasts := congrArg List.getLast? hused
          simpa [List.concat_eq_append, ← List.append_assoc] using hlasts.symm
        rw [List.concat_eq_append, List.dropLast_concat, hend, reapedPids_append]
        simp
    rw [houtcomes, hlast]

theorem waitFor_emits (speech : k.SpeechLaws running heard) (pid : Pid) (m : Machine σ) :
    Emits k running heard m [] (m.waitFor k pid).2 := by
  obtain ⟨pids, hperm⟩ := reapOne_perm pid (m.await k).outcomes
  exact (await_emits speech m).silent (reap_emits (m.await k) hperm)

/-! ## Launching -/

theorem closeInput_emits {input : Nat} (hinput : input ≠ 1) (m : Machine σ) :
    Emits k running heard m [] (m.closeInput input) := by
  unfold closeInput
  split
  · exact .refl m
  · exact (Step.close m hinput).emits

/-- A pipe that is made takes numbers that were free. -/
theorem made_emits (takes : k.Takes slot.handle P) (hm : m.Ready interpreter slot P)
    {pipe : Process.PipeEnds} {process : Process} {made : σ}
    (hpipe : m.process.openPipe k m.world = .ok (pipe, process, made)) :
    Ready interpreter slot P { m with process, world := made } ∧
      Emits k running heard m [] { m with process, world := made } ∧ pipe.read ≠ 1 ∧ pipe.write ≠ 1 := by
  have hmade : Emits k running heard m [] { m with process, world := made } := (Step.pipe m hpipe).emits
  obtain ⟨id, table, -, rfl, hopened⟩ := Process.openPipe_eq_ok hpipe
  have hopen : m.process.table.get? 1 ≠ none := by
    rw [hm.slot]
    exact Option.some_ne_none slot
  obtain ⟨hread, hwrite⟩ := hopened.ne_of_open hopen
  exact ⟨hmade.ready takes hm, hmade, Ne.symm hread, Ne.symm hwrite⟩

theorem settle_emits {ran : Except ProcessError Status × Machine σ}
    (h : Emits k running heard m [] ran.2) : Emits k running heard m [] (settle k ran).2 := by
  obtain ⟨result, m'⟩ := ran
  cases result with
  | ok status => exact h
  | error e => exact h.silent (complain_emits m' e.message)

section

variable (speech : k.SpeechLaws running heard) (takes : k.Takes slot.handle P)

include speech takes

/-- **The stages of a pipeline are forked with an empty buffer**, each of them. -/
theorem forkStages_emits (stages : List Command) {input : Nat} (hinput : input ≠ 1)
    (hm : m.Ready interpreter slot P) :
    Emits k running heard m [] (m.forkStages k (commandBody k) stages input).2.2 := by
  induction stages, input, m using forkStages_induct k (commandBody k) with
  | nil input m =>
    rw [forkStages_nil]
    exact closeInput_emits hinput m
  | last stage input m world hfork =>
    rw [forkStages_last hfork]
    exact (forked_emits takes hm speech (.stage stage input none) hfork).silent
      (closeInput_emits hinput _)
  | lastRefused stage input m errno hfork =>
    rw [forkStages_last_refused hfork]
    exact (flush_emits takes hm).silent (closeInput_emits hinput _)
  | stop stage next rest input m errno hpipe =>
    rw [forkStages_stop hpipe]
    exact closeInput_emits hinput m
  | refused stage next rest input m pipe process made errno hpipe hfork =>
    obtain ⟨hready, hmade, hread, hwrite⟩ :
        _ ∧ Emits k running heard m [] { m with process, world := made } ∧ _ := made_emits takes hm hpipe
    have hflushed := hmade.silent (flush_emits takes hready)
    have hclosed := (hflushed.silent (closeInput_emits hinput _)).silent (Step.close _ hread).emits
    rw [forkStages_refused hpipe hfork]
    exact hclosed.silent (Step.close _ hwrite).emits
  | pass stage next rest input m pipe process made world hpipe hfork ih =>
    obtain ⟨hready, hmade, hread, hwrite⟩ :
        _ ∧ Emits k running heard m [] { m with process, world := made } ∧ _ := made_emits takes hm hpipe
    have hforked := hmade.silent
      (forked_emits takes hready speech (.stage stage input (some pipe)) hfork)
    have hpassed : Emits k running heard m [] (passStage k (commandBody k) stage input pipe world
        { m with process, world := made }) :=
      (hforked.silent (closeInput_emits hinput _)).silent (Step.close _ hwrite).emits
    rw [forkStages_pass hpipe hfork]
    exact hpassed.silent (ih hread (hpassed.ready takes hm))

theorem runSimple_emits (command : Command) (hm : m.Ready interpreter slot P) :
    Emits k running heard m [] (m.runSimple k (commandBody k) command).2 := by
  unfold runSimple
  rcases grants_or_refuses k m with ⟨world, hfork⟩ | ⟨errno, hfork⟩
  · rw [forkChild_granted hfork]
    exact (forked_emits takes hm speech (.command command.words) hfork).silent
      (waitFor_emits speech _ _)
  · rw [forkChild_refused hfork]
    exact flush_emits takes hm

/-- **A launch prints nothing.** -/
theorem launcher_emits (m₀ : Machine σ) : (launcher k (commandBody k)).Preserves fun m =>
    m.Ready interpreter slot P ∧ Emits k running heard m₀ [] m where
  command command m h := by
    obtain ⟨hm, hbefore⟩ := h
    have hlaunched := settle_emits (runSimple_emits speech takes command hm)
    exact ⟨hlaunched.ready takes hm, hbefore.silent hlaunched⟩
  pipeline stages m h := by
    obtain ⟨hm, hbefore⟩ := h
    have hran : Emits k running heard m [] (m.runPipeline k (commandBody k) stages).2 := by
      rw [runPipeline_eq]
      exact (forkStages_emits speech takes stages (by decide) hm).silent (waitAll_emits speech _ _)
    have hlaunched := settle_emits hran
    exact ⟨hlaunched.ready takes hm, hbefore.silent hlaunched⟩

end

end

end Machine

end LineShell
