import LineShell.Proofs.Evaluation.Preserve
import LineShell.Proofs.Kernel.Emission
import LineShell.Proofs.Kernel.Laws
import LineShell.Proofs.Kernel.Recording
import LineShell.Proofs.Session.Dispatch
import LineShell.Proofs.Session.Interrupts

/-!
# What a session prints

A session prints the listings of its history, a line end for an interrupt, and its prompts.

* `Session.Act`, `Session.actAll`: what a session has the interpreter do; `Session.printsAll` is what it
  prints meanwhile.
* `Session.dispatch_emits`, `Session.actAll_emits`: it is printed along paths on which forks find the
  buffer empty.
* `Emitted`: what that comes to. What was printed is written once, in order and to one place; before a
  fork all of it is written, the child is given nothing of it, and no child writes after its reaping.
* `output_emitted_once`: all this holds of every session, whatever was in the buffer at its beginning.

Throughout, standard output takes what is written to it (`Kernel.Takes`). Where it does not, what could not
be written stays in the buffer, and is copied by the next fork.
-/

namespace LineShell

variable {σ : Type u}

/-! ## Sessions -/

/-- Asks for a line, past what has been printed, which is written out before; `ended` tells whether the
prompt's line is ended because no line came (`read_line`). -/
def Machine.ask (k : Kernel σ) (prompt : Text) (ended : Bool) (m : Machine σ) : Machine σ :=
  let m := (m.flush k).write k 1 (Utf8.encode prompt)
  if ended then m.write k 1 (Utf8.encode ['\n']) else m

namespace Session

/-- What a session has the interpreter do. -/
inductive Act where
  | ask (prompt : Text) (ended : Bool)
  | meet (stimulus : Stimulus)

/-- The host of a session whose commands are children. -/
abbrev hostOf (k : Kernel σ) : Host (Machine σ) := Machine.host k (commandBody k)

def act (k : Kernel σ) (s : Session) (m : Machine σ) : Act → Session × Machine σ
  | .ask prompt ended => (s, m.ask k prompt ended)
  | .meet .interrupt => (s, (hostOf k).setInterrupted true m)
  | .meet (.line text record) => s.dispatch (hostOf k) text record m

/-- One thing after another. -/
def actAll (k : Kernel σ) : List Act → Session → Machine σ → Session × Machine σ
  | [], s, m => (s, m)
  | a :: rest, s, m =>
    let (s, m) := s.act k m a
    actAll k rest s m

/-- What a dispatch prints: the listing that a built-in gives, or a line end if an interrupt arrived while
the line ran, or if the line died by one. -/
def dispatchPrints (k : Kernel σ) (text : Text) (s : Session) (m : Machine σ) : Bytes :=
  match Builtin.recognize? text with
  | some builtin => Utf8.encode (builtin.parts s).flatten
  | none =>
    match Line.parse? text with
    | none => []
    | some line =>
      let ran := line.run (hostOf k).toLauncher m
      if ran.2.interrupted || ran.1 == .signaled interruptSignal then [10] else []

def actPrints (k : Kernel σ) (s : Session) (m : Machine σ) : Act → Bytes
  | .ask prompt ended => Utf8.encode prompt ++ if ended then Utf8.encode ['\n'] else []
  | .meet .interrupt => []
  | .meet (.line text _) => s.dispatchPrints k text m

/-- All that a session prints, in order. -/
def printsAll (k : Kernel σ) : List Act → Session → Machine σ → Bytes
  | [], _, _ => []
  | a :: rest, s, m =>
    let acted := s.act k m a
    s.actPrints k m a ++ printsAll k rest acted.1 acted.2

section

open Machine

variable {k : Kernel σ} {running : σ → List Pid} {heard : σ → List Receipt} {m : Machine σ}
  {interpreter : Pid} {slot : Slot} {P : σ → Prop}

/-- **A prompt is written at once**, after all that was printed before it. -/
theorem ask_emits (takes : k.Takes slot.handle P) (hm : m.Ready interpreter slot P) (prompt : Text)
    (ended : Bool) :
    Emits k running heard m (Utf8.encode prompt ++ if ended then Utf8.encode ['\n'] else [])
      (m.ask k prompt ended) := by
  have hflushed : Emits k running heard m [] (m.flush k) := flush_emits takes hm
  have hready := hflushed.ready takes hm
  have hempty : (m.flush k).process.output = [] := flush_output takes hm
  have hasked : Emits k running heard m (Utf8.encode prompt) _ :=
    hflushed.trans (write_emits hready hempty (Utf8.encode prompt))
  unfold ask
  cases ended with
  | false =>
    rw [if_neg (by simp), List.append_nil]
    exact hasked
  | true => exact hasked.trans (write_emits (hasked.ready takes hm) hempty (Utf8.encode ['\n']))

/-- **A built-in prints its listing**, and nothing stays in the buffer. -/
theorem runBuiltin_emits (takes : k.Takes slot.handle P) (hm : m.Ready interpreter slot P)
    (builtin : Builtin) (s : Session) :
    Emits k running heard m (Utf8.encode (builtin.parts s).flatten)
      (runBuiltin (hostOf k) builtin s m).2 := by
  have hperformed : Emits k running heard m (Utf8.encode (builtin.parts s).flatten)
      (builtin.perform (Machine.output k) s m).out := by
    unfold Builtin.parts
    cases hcount : builtin.count? with
    | none =>
      rw [Builtin.perform_of_no_count _ hcount]
      exact .refl m
    | some count =>
      rw [Builtin.perform_of_count _ hcount, Builtin.listed_eq]
      exact (print_texts_emits takes hm (s.history.listing count)).2
  change Emits k running heard m _ ((builtin.perform (Machine.output k) s m).complaint.elim
    (builtin.perform (Machine.output k) s m).out _)
  cases (builtin.perform (Machine.output k) s m).complaint with
  | none => exact hperformed
  | some message =>
    have hcomplained := hperformed.trans (complain_emits _ message)
    rwa [List.append_nil] at hcomplained

/-- **A line that is run prints a line end for an interrupt**, after its launches. -/
theorem runLine_emits (speech : k.SpeechLaws running heard) (takes : k.Takes slot.handle P)
    (hm : m.Ready interpreter slot P) (line : Line) (s : Session) :
    let ran := line.run (hostOf k).toLauncher m
    Emits k running heard m
      (if ran.2.interrupted || ran.1 == .signaled interruptSignal then [10] else [])
      (runLine (hostOf k) line s m).2 := by
  intro ran
  obtain ⟨hready, hlaunched⟩ : ran.2.Ready interpreter slot P ∧ Emits k running heard m [] ran.2 :=
    Line.run_preserves (launcher_emits speech takes m) line ⟨hm, .refl m⟩
  have hforgot : Emits k running heard m [] { ran.2 with interrupted := false } :=
    hlaunched.silent (Step.remember ran.2 false).emits
  change Emits k running heard m _
    (if ran.2.interrupted || ran.1 == .signaled interruptSignal
      then ({ ran.2 with interrupted := false } : Machine σ).print k [10]
      else { ran.2 with interrupted := false })
  split
  · exact hforgot.trans (print_lineEnd_emits takes (hforgot.ready takes hm))
  · exact hforgot

/-- **A dispatch prints along a path on which forks find the buffer empty.** -/
theorem dispatch_emits (speech : k.SpeechLaws running heard) (takes : k.Takes slot.handle P)
    (hm : m.Ready interpreter slot P) (text : Text) (record : Bool) (s : Session) :
    Emits k running heard m (s.dispatchPrints k text m) (s.dispatch (hostOf k) text record m).2 := by
  unfold dispatchPrints
  cases hbuiltin : Builtin.recognize? text with
  | some builtin =>
    rw [dispatch_of_builtin _ hbuiltin]
    exact runBuiltin_emits takes hm builtin s
  | none =>
    cases hparse : Line.parse? text with
    | none =>
      rw [dispatch_of_nothing _ hbuiltin hparse]
      exact .refl m
    | some line =>
      rw [dispatch_of_line _ hbuiltin hparse]
      exact runLine_emits speech takes hm line _

theorem act_emits (speech : k.SpeechLaws running heard) (takes : k.Takes slot.handle P)
    (hm : m.Ready interpreter slot P) (s : Session) (a : Act) :
    Emits k running heard m (s.actPrints k m a) (s.act k m a).2 := by
  cases a with
  | ask prompt ended => exact ask_emits takes hm prompt ended
  | meet stimulus =>
    cases stimulus with
    | line text record => exact dispatch_emits speech takes hm text record s
    | interrupt => exact (Step.remember m true).emits

/-- **So does a whole session.** -/
theorem actAll_emits (speech : k.SpeechLaws running heard) (takes : k.Takes slot.handle P)
    (hm : m.Ready interpreter slot P) (s : Session) (acts : List Act) :
    Emits k running heard m (s.printsAll k acts m) (s.actAll k acts m).2 := by
  induction acts generalizing s m with
  | nil => exact .refl m
  | cons a rest ih =>
    have hfirst : Emits k running heard m _ (s.act k m a).2 := act_emits speech takes hm s a
    exact hfirst.trans (ih (hfirst.ready takes hm) _)

end

end Session

/-! ## What was emitted -/

/-- Output that was emitted once: what was printed on top of `buffer` was written to where `handle`
leads, but for `rest`. -/
structure Emitted (handle : Handle) (buffer rest : Bytes) (entries : List Entry) : Prop where
  /-- Each byte is written once, and in the order in which it was printed. -/
  once : writtenBytes entries ++ rest = buffer ++ printedBytes entries
  /-- All is written in the end, where anything was printed or written. -/
  complete : rest = [] ∨ writtenBytes entries = [] ∧ printedBytes entries = []
  place : ∀ target bytes, .wrote target bytes ∈ entries → target = handle
  /-- Nothing is written before it is printed. -/
  after : ∀ earlier later, entries = earlier ++ later →
    writtenBytes earlier <+: buffer ++ printedBytes earlier
  /-- At a fork all that was printed is written; the child has nothing of it, and has written nothing
  itself. -/
  forked : ∀ earlier pid copy later, entries = earlier ++ .forked pid copy :: later →
    writtenBytes earlier = buffer ++ printedBytes earlier ∧ copy = [] ∧
      ∀ e ∈ earlier, e.author? ≠ some pid
  /-- A child that does not become a program writes nothing of what was printed, wherever its standard
  output leads. -/
  left : ∀ pid target copy, .left pid target copy ∈ entries → copy = []
  /-- Beside what the interpreter writes to its standard output, processes of its own write diagnostics
  only. -/
  others : ∀ target bytes, .written target bytes ∈ heardFrom entries →
    .wrote target bytes ∈ entries ∨ ∃ message, bytes = diagnostic message
  /-- A child that was reaped writes nothing any more. -/
  reaped : ∀ earlier pid later, entries = earlier ++ .reaped pid :: later →
    ∀ e ∈ later, e.author? ≠ some pid

namespace Machine

variable {k : Kernel σ} {running : σ → List Pid} {heard : σ → List Receipt} {m m' : Machine σ}
  {entries : List Entry} {slot : Slot}

/-- **On a path on which forks find the buffer empty, output is emitted once.** -/
theorem Emission.emitted (h : Emission k running heard m entries m')
    (laws : k.ChildLaws m.process.pid running) (hm : m.Sound running)
    (hslot : m.process.table.get? 1 = some slot) :
    Emitted slot.handle m.process.output m'.process.output entries where
  once := h.path.buffered.written_append
  complete := h.drained
  place := (h.path.handle hslot).2
  after earlier later hsplit := by
    have hbuffered := h.path.buffered
    rw [hsplit] at hbuffered
    obtain ⟨between, hearlier, -⟩ := hbuffered.split
    exact ⟨between, hearlier.written_append⟩
  forked earlier pid copy later hsplit := by
    have hbuffered := h.path.buffered
    have hbefore := (h.path.span laws hm).before
    have hcopy : copy = [] := h.clean (.forked pid copy) (by rw [hsplit]; simp) copy rfl
    rw [hsplit] at hbuffered hbefore
    obtain ⟨between, hearlier, hlater⟩ := hbuffered.split
    have hempty : between = [] := by
      cases hlater with
      | cons first _ => exact first.1.symm.trans hcopy
    have hwritten := hearlier.written_append
    rw [hempty, List.append_nil] at hwritten
    refine ⟨hwritten, hcopy, fun e he => ?_⟩
    have hpair := (List.pairwise_append.mp hbefore).2.2 e he _ List.mem_cons_self
    exact hpair.forked pid copy rfl
  left pid target copy hmem := h.clean _ hmem copy rfl
  others target bytes hmem := by
    obtain ⟨e, he, hheard⟩ := List.mem_flatMap.mp hmem
    cases e with
    | wrote handle written =>
      obtain ⟨rfl, rfl⟩ := Receipt.written.inj (List.mem_singleton.mp hheard)
      exact .inl he
    | complained handle message =>
      exact .inr ⟨message, (Receipt.written.inj (List.mem_singleton.mp hheard)).2⟩
    | diagnosed pid handle message =>
      exact .inr ⟨message, (Receipt.written.inj (List.mem_singleton.mp hheard)).2⟩
    | spoke pid written => cases List.mem_singleton.mp hheard
    | left pid other copy =>
      -- a copy that is empty is not heard
      obtain rfl : copy = [] := h.clean _ he copy rfl
      cases other <;> exact absurd hheard List.not_mem_nil
    | printed | forked | reaped => exact absurd hheard List.not_mem_nil
  reaped earlier pid later hsplit e he := by
    have hbefore := (h.path.span laws hm).before
    rw [hsplit] at hbefore
    have hafter := (List.pairwise_append.mp hbefore).2.1
    exact ((List.pairwise_cons.mp hafter).1 e he).reaped pid rfl

end Machine

/-- **Output is emitted once and in order across forks.** Whatever a session is made to do: lines of any
kind, interrupts between them and prompts; whatever is in the buffer at its beginning, and whatever
programs do; all that happens to the interpreter is a chronicle of steps, which tells what the session
prints and, in order, all that reaches the system. In it each byte that is printed is written exactly
once, in order, to where the interpreter's standard output leads, before any child is forked that comes
after it; no child has a part in it, not even one that leaves without having become a program, and what a
child writes stands between its fork and its reaping. -/
theorem output_emitted_once {k : Kernel σ} {running : σ → List Pid} {heard : σ → List Receipt}
    {m : Machine σ} {slot : Slot} {P : σ → Prop} (laws : k.ChildLaws m.process.pid running)
    (speech : k.SpeechLaws running heard) (takes : k.Takes slot.handle P) (hm : m.Sound running)
    (hslot : m.process.table.get? 1 = some slot) (hworld : P m.world) (s : Session)
    (acts : List Session.Act) :
    let ended := (s.actAll k acts m).2
    ∃ entries, Machine.Path k running heard m entries ended ∧
      printedBytes entries = s.printsAll k acts m ∧
      heard ended.world = heard m.world ++ heardFrom entries ∧
      Emitted slot.handle m.process.output ended.process.output entries := by
  intro ended
  obtain ⟨entries, hemission, hprinted⟩ : Machine.Emits k running heard m _ ended :=
    Session.actAll_emits speech takes ⟨rfl, hslot, hworld⟩ s acts
  exact ⟨entries, hemission.path, hprinted, hemission.path.heard_eq speech,
    hemission.emitted laws hm hslot⟩

/-! ## On a bench -/

/-- A bench with a record, on which each program writes its number when it is let go on. -/
def Kernel.speaking : Kernel (Bench × List Receipt) :=
  bench.recorded fun _ _ s => s.running.map fun pid => (pid, [pid.toUInt8])

theorem Kernel.speaking_speechLaws : speaking.SpeechLaws (fun s => s.1.running) Prod.snd :=
  recorded_speechLaws Bench.running fun _ _ s word hword => by
    obtain ⟨pid, hpid, rfl⟩ := List.mem_map.mp hword
    exact hpid

/-- All that is written on a bench is taken. -/
theorem Kernel.speaking_takes (handle : Handle) : speaking.Takes handle fun _ => True where
  openFile _ _ := trivial
  write _ _ _ _ := trivial
  fork _ _ := trivial
  start _ _ := trivial
  newPipe _ _ := trivial
  await _ _ _ _ := trivial
  takes _ _ := rfl

/-- The beginning of a prompt is still in the buffer when a pipeline is run. Its first stage, child 10,
only opens a file and leaves, and its second stage, child 11, writes as a program. The line end for an
interrupt, the history and a prompt that no line comes after follow, and all of it is written once. -/
theorem output_emitted_once_beside_idle_child :
    let m : Machine (Bench × List Receipt) :=
      let m := (Bench.machine 9 []).map (·, [])
      { m with process := { m.process with output := Utf8.encode "> ".toList } }
    let acts : List Session.Act :=
      [.meet (.line "> out|b".toList true), .meet .interrupt, .meet (.line "history".toList true),
        .ask "vsh$ ".toList true]
    let ended := ((Session.start 10).actAll .speaking acts m).2
    let said (text : String) : Receipt := .written (.file 1) (Utf8.encode text.toList)
    m.Sound (fun s => s.1.running) ∧ m.process.table.get? 1 = some ⟨.file 1, false⟩ ∧
      ∃ entries, Machine.Path .speaking (fun s => s.1.running) Prod.snd m entries ended ∧
        heardFrom entries =
          [said "> ", .spoken 11 [11], said "\n", said "    1  > out|b\n", said "vsh$ ", said "\n"] ∧
        Emitted (.file 1) (Utf8.encode "> ".toList) [] entries := by
  intro m acts ended said
  have hsound : m.Sound fun s => s.1.running := ⟨fun pid hpid => absurd hpid List.not_mem_nil, .nil⟩
  have hslot : m.process.table.get? 1 = some ⟨.file 1, false⟩ := rfl
  have hlaws : Kernel.speaking.ChildLaws m.process.pid fun s => s.1.running :=
    Kernel.recorded_childLaws (Kernel.bench_childLaws 2)
  have hbuffer : m.process.output = Utf8.encode "> ".toList := rfl
  have hempty : m.world.2 = [] := rfl
  have hrest : ended.process.output = [] := by decide +kernel
  have hheard : ended.world.2 =
      [said "> ", .spoken 11 [11], said "\n", said "    1  > out|b\n", said "vsh$ ", said "\n"] := by
    decide +kernel
  have hend : ended = ((Session.start 10).actAll .speaking acts m).2 := rfl
  clear_value m acts ended
  obtain ⟨entries, hpath, -, hrecord, hemitted⟩ :=
    output_emitted_once hlaws Kernel.speaking_speechLaws (Kernel.speaking_takes _) hsound hslot trivial
      (Session.start 10) acts
  rw [← hend] at hpath hrecord hemitted
  rw [hrest, hbuffer] at hemitted
  rw [hempty, List.nil_append] at hrecord
  exact ⟨hsound, hslot, entries, hpath, hrecord.symm.trans hheard, hemitted⟩

end LineShell
