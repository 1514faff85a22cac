import LineShell.Proofs.Evaluation.Tally
import LineShell.Proofs.Session.Outcome
import LineShell.Proofs.Session.Reader

/-!
# Who takes what of standard input

The interpreter and the programs it starts read the same input, each from where the others stopped. So
the bytes of standard input fall into blocks, in order: in each round the line that the interpreter
reads, and then what every launch of that line takes.

* `Console.SharesInput`: what is trusted of standard input. Reads that are made are gone and no others
  are, programs read on as far as they like, and nothing else touches the input.
* `Console.Splits`: how a round cuts the bytes that are unread when its line is asked for.
* `Console.ends_of_interrupts_end`: a run comes to its end unless it is interrupted over and over, since
  each line that is read leaves less of the input.
* `Console.input_partitioned`: every round of a run that is not interactive cuts the input so, and between
  two rounds no byte is lost or read again.
-/

namespace LineShell

namespace Console

variable {W : Type u} (console : Console W)

/-- The bytes of standard input that nobody has read. -/
def unread (w : W) : Bytes :=
  bytesOf (console.arrivals 0 w)

/-- What is trusted of a standard input that the interpreter shares with the programs it starts, in the
worlds of a kind that nothing leads out of. -/
structure SharesInput (sound : W → Prop) : Prop extends
    keeps : console.toHost.Preserves sound, console.toLauncher.ReadsOn sound console.unread where
  /-- Reads bring bytes up to the end of the input, broken off by signals now and then. -/
  steady : ∀ w, sound w → ∀ arrival ∈ console.arrivals 0 w, arrival.Steady
  advance : ∀ count w, sound w → sound (console.advance 0 count w)
  /-- What is left after some reads is what the others bring. -/
  advance_unread : ∀ count w, sound w → console.unread (console.advance 0 count w) =
    bytesOf ((console.arrivals 0 w).drop count)
  setInterrupted_unread : ∀ interrupted w, sound w →
    console.unread (console.setInterrupted interrupted w) = console.unread w
  write_unread : ∀ bytes w, sound w → console.unread (console.output.write bytes w).2 = console.unread w
  flush_unread : ∀ w, sound w → console.unread (console.output.flush w).2 = console.unread w
  print_unread : ∀ bytes w, sound w → console.unread (console.print bytes w) = console.unread w
  complain_unread : ∀ message w, sound w →
    console.unread (console.complain message w) = console.unread w

/-- What the launches of a dispatched line take of standard input, in order. A built-in launches
nothing, and neither does a line in which there is nothing to run. -/
def takings (line : Text) (w : W) : List Bytes :=
  match Builtin.recognize? line with
  | some _ => []
  | none => (Line.parse? line).elim [] fun parsed => parsed.takings console.toLauncher console.unread w

/-- What the interpreter takes of standard input in a round. -/
def readBlock (round : Round W) : Bytes :=
  taken (console.unread round.asked) (console.unread round.read)

/-- What is launched in a round takes of standard input, in order. -/
def launchBlocks (round : Round W) : List Bytes :=
  match round.event with
  | .line line => console.takings line round.read
  | .interrupted | .endOfInput => []

/-- How a round cuts the bytes that are unread when its line is asked for. -/
structure Splits (round : Round W) : Prop where
  read : console.unread round.asked = console.readBlock round ++ console.unread round.read
  launches : console.unread round.read =
    (console.launchBlocks round).flatten ++ console.unread round.after.2
  /-- A line takes the bytes up to and including the next line end, or all if there is none. -/
  line : ∀ text, round.event = .line text → console.unread round.asked ≠ [] ∧
    console.readBlock round = Bytes.firstLine (console.unread round.asked) ∧
    text = Utf8.decodeLossy (Bytes.beforeLineEnd (console.unread round.asked))
  endOfInput : round.event = .endOfInput → console.unread round.asked = []
  /-- Only a signal keeps the interpreter from reading a line to its end. -/
  interrupted : round.event = .interrupted → 10 ∉ console.readBlock round ∧
    ∃ interrupt, .signal interrupt ∈ console.arrivals 0 round.asked

variable {console} {sound : W → Prop}

/-! ## One read -/

/-- What the interpreter reads is gone, and nothing else is. -/
theorem readLine_unread (h : console.SharesInput sound) {w : W} (hw : sound w) :
    sound (console.readLine 0 w).2 ∧
      ∃ made, (∀ arrival ∈ made, arrival ∈ console.arrivals 0 w) ∧
        console.unread w = bytesOf made ++ console.unread (console.readLine 0 w).2 ∧
          Reading.Takes [] (console.arrivals 0 w) made (console.readLine 0 w).1 := by
  obtain ⟨hfailure, made, hmade, htakes⟩ :=
    LineShell.readLine_takes (console.interrupted w) (h.steady w hw)
  unfold readLine
  simp only
  generalize LineShell.readLine (console.interrupted w) (console.arrivals 0 w) = reading
    at hfailure hmade htakes ⊢
  have hcount : (console.arrivals 0 w).length - reading.rest.length = made.length := by
    rw [hmade, List.length_append]
    omega
  have hread := h.advance made.length w hw
  rw [hcount, hfailure, Option.elim_none]
  refine ⟨h.setInterrupted _ _ hread, made, fun arrival harrival => ?_, ?_, htakes⟩
  · rw [hmade]
    exact List.mem_append_left _ harrival
  · rw [h.setInterrupted_unread _ _ hread, h.advance_unread _ _ hw, unread, hmade, bytesOf_append,
      List.drop_left]

/-! ## One dispatch -/

/-- Printing and complaining leave standard input alone. -/
theorem runBuiltin_unread (h : console.SharesInput sound) (builtin : Builtin) (s : Session) {w : W}
    (hw : sound w) :
    console.unread (Session.runBuiltin console.toHost builtin s w).2 = console.unread w := by
  have houtput : console.output.Preserves fun v => sound v ∧ console.unread v = console.unread w := {
    write := fun bytes v ⟨hv, hunread⟩ =>
      ⟨h.output.write bytes v hv, (h.write_unread bytes v hv).trans hunread⟩
    flush := fun v ⟨hv, hunread⟩ => ⟨h.output.flush v hv, (h.flush_unread v hv).trans hunread⟩ }
  obtain ⟨hperformed, hunread⟩ := builtin.perform_preserves houtput s ⟨hw, rfl⟩
  unfold Session.runBuiltin
  simp only
  cases (builtin.perform console.output s w).complaint with
  | none => exact hunread
  | some message => exact (h.complain_unread message _ hperformed).trans hunread

/-- The interrupt that may have arrived meanwhile, and its answer, leave standard input alone. -/
theorem runLine_unread (h : console.SharesInput sound) (line : Line) (s : Session) {w : W}
    (hw : sound w) :
    console.unread (Session.runLine console.toHost line s w).2 =
      console.unread (line.run console.toLauncher w).2 := by
  have hran := Line.run_preserves h.toReadsOn.toPreserves line hw
  have hasked := h.setInterrupted false _ hran
  unfold Session.runLine Host.takeInterrupt
  simp only
  split
  · rw [h.print_unread _ _ hasked, h.setInterrupted_unread _ _ hran]
  · rw [h.setInterrupted_unread _ _ hran]

/-- **A dispatch takes exactly what the launches of its line take.** -/
theorem dispatch_unread (h : console.SharesInput sound) (line : Text) (record : Bool) (s : Session)
    {w : W} (hw : sound w) :
    console.unread w = (console.takings line w).flatten ++
      console.unread (s.dispatch console.toHost line record w).2 := by
  unfold takings
  cases hbuiltin : Builtin.recognize? line with
  | some builtin =>
    rw [Session.dispatch_of_builtin console.toHost hbuiltin]
    exact (runBuiltin_unread h builtin s hw).symm
  | none =>
    cases hparse : Line.parse? line with
    | none =>
      rw [Session.dispatch_of_nothing console.toHost hbuiltin hparse]
      rfl
    | some parsed =>
      rw [Session.dispatch_of_line console.toHost hbuiltin hparse, runLine_unread h parsed _ hw]
      exact Line.unread_eq_takings h.toReadsOn parsed hw

/-! ## Rounds -/

/-- Each round cuts what is unread when its line is asked for. -/
theorem splits_round (h : console.SharesInput sound) (s : Session) {w : W} (hw : sound w) :
    console.Splits (console.round .standardInput false s w) := by
  obtain ⟨hsound, made, hmem, hread, htakes⟩ := readLine_unread h hw
  have hblock : console.readBlock (console.round .standardInput false s w) = bytesOf made := by
    change taken (console.unread w) (console.unread (console.readLine 0 w).2) = bytesOf made
    rw [hread, taken_append]
  change Reading.Takes _ _ _ (console.round .standardInput false s w).event at htakes
  constructor
  case read =>
    rw [hblock]
    exact hread
  case launches =>
    unfold launchBlocks
    cases hevent : (console.round .standardInput false s w).event with
    | line line =>
      rw [round_after_line hevent]
      exact dispatch_unread h line true s hsound
    | interrupted => rw [round_after_of_no_line (by simp [hevent])]; rfl
    | endOfInput => rw [round_after_of_no_line (by simp [hevent])]; rfl
  case line =>
    intro text hevent
    rw [hevent] at htakes
    rw [hblock]
    cases htakes with
    | line hne hmade => exact ⟨hne, hmade, rfl⟩
  case endOfInput =>
    intro hevent
    rw [hevent] at htakes
    cases htakes with
    | endOfInput _ hbytes => exact hbytes
  case interrupted =>
    intro hevent
    rw [hevent] at htakes
    rw [hblock]
    cases htakes with
    | interrupted hsignal hline => exact ⟨hline, _, hmem _ hsignal⟩

theorem round_sound (h : console.SharesInput sound) (s : Session) {w : W} (hw : sound w) :
    sound (console.round .standardInput false s w).after.2 := by
  have hread := (readLine_unread h hw).1
  cases hevent : (console.round .standardInput false s w).event with
  | line line =>
    rw [round_after_line hevent]
    exact Session.dispatch_preserves h.keeps line true s hread
  | interrupted => rw [round_after_of_no_line (by simp [hevent])]; exact hread
  | endOfInput => rw [round_after_of_no_line (by simp [hevent])]; exact hread

theorem afterRounds_sound (h : console.SharesInput sound) (n : Nat) (s : Session) {w : W}
    (hw : sound w) : sound (console.afterRounds .standardInput false n s w).2 := by
  induction n generalizing s w with
  | zero => exact hw
  | succ n ih => exact ih _ (round_sound h s hw)

/-- What the interpreter and the launches take in rounds, in order. -/
theorem rounds_unread (h : console.SharesInput sound) (n : Nat) (s : Session) {w : W} (hw : sound w) :
    console.unread w =
      ((console.rounds .standardInput false n s w).flatMap fun round =>
          console.readBlock round :: console.launchBlocks round).flatten ++
        console.unread (console.afterRounds .standardInput false n s w).2 := by
  induction n generalizing s w with
  | zero => rfl
  | succ n ih =>
    have hfirst := splits_round h s hw
    rw [rounds, afterRounds, List.flatMap_cons, List.flatten_append, List.flatten_cons,
      List.append_assoc, List.append_assoc, ← ih _ (round_sound h s hw), ← hfirst.launches,
      ← hfirst.read]
    rfl

/-! ## The end of the input -/

/-- A round in which a line was read leaves less of the input. -/
theorem unread_after_line (h : console.SharesInput sound) (s : Session) {w : W} (hw : sound w)
    {text : Text} (hevent : (console.round .standardInput false s w).event = .line text) :
    (console.unread (console.round .standardInput false s w).after.2).length <
      (console.unread w).length := by
  have hsplits := splits_round h s hw
  obtain ⟨hne, hblock, -⟩ := hsplits.line text hevent
  have hasked : (console.unread w).length =
      (console.readBlock (console.round .standardInput false s w)).length +
        (console.unread (console.round .standardInput false s w).read).length := by
    rw [← List.length_append, ← hsplits.read]
    rfl
  have hpos : 0 < (console.readBlock (console.round .standardInput false s w)).length := by
    rw [hblock]
    exact List.length_pos_iff.mpr (Bytes.firstLine_ne_nil hne)
  have hlaunches := congrArg List.length hsplits.launches
  rw [List.length_append] at hlaunches
  omega

/-- A run in which no reading is interrupted ends: the lines that are read use up the input. -/
theorem ends_of_uninterrupted (h : console.SharesInput sound) {s : Session} {w : W} (hw : sound w)
    (hread : ∀ n, (console.roundAfter .standardInput false n s w).event ≠ .interrupted) :
    ∃ n status, console.EndsAfter .standardInput false n s w status := by
  induction hlength : (console.unread w).length using Nat.strongRecOn generalizing s w with
  | ind length ih =>
    cases hend : endStatus? (console.round .standardInput false s w).event with
    | some status => exact ⟨0, status, endsAfter_zero.mpr hend⟩
    | none =>
      cases hevent : (console.round .standardInput false s w).event with
      | interrupted => exact absurd hevent (hread 0)
      | endOfInput =>
        rw [hevent] at hend
        exact absurd hend (by simp [endStatus?])
      | line text =>
        obtain ⟨n, status, hends⟩ := ih _ (hlength ▸ unread_after_line h s hw hevent)
          (round_sound h s hw) (fun n => hread (n + 1)) rfl
        exact ⟨n + 1, status, endsAfter_succ.mpr ⟨hend, hends⟩⟩

/-- **A run ends, unless its readings are interrupted over and over.** -/
theorem ends_of_interrupts_end (h : console.SharesInput sound) (bound : Nat) {s : Session} {w : W}
    (hw : sound w)
    (hread : ∀ n, bound ≤ n → (console.roundAfter .standardInput false n s w).event ≠ .interrupted) :
    ∃ n status, console.EndsAfter .standardInput false n s w status := by
  induction bound generalizing s w with
  | zero => exact ends_of_uninterrupted h hw fun n => hread n (Nat.zero_le n)
  | succ bound ih =>
    cases hend : endStatus? (console.round .standardInput false s w).event with
    | some status => exact ⟨0, status, endsAfter_zero.mpr hend⟩
    | none =>
      obtain ⟨n, status, hends⟩ := ih (round_sound h s hw) fun n hn =>
        hread (n + 1) (Nat.succ_le_succ hn)
      exact ⟨n + 1, status, endsAfter_succ.mpr ⟨hend, hends⟩⟩

end Console

/-! ## A tape -/

namespace Tape

/-- Nothing but bytes and signals comes before the end of a tape. -/
def Steady (tape : Tape) : Prop := ∀ arrival ∈ tape.reads, arrival.Steady

theorem Steady.forward {tape : Tape} (h : tape.Steady) (count : Nat) : (tape.forward count).Steady :=
  fun arrival harrival => h arrival (List.mem_of_mem_drop harrival)

theorem unread_forward (tape : Tape) (count : Nat) :
    console.unread (tape.forward count) <:+ console.unread tape := by
  refine ⟨bytesOf (tape.reads.take count), ?_⟩
  change bytesOf (tape.reads.take count) ++ bytesOf (tape.reads.drop count) = bytesOf tape.reads
  rw [← bytesOf_append, List.take_append_drop]

/-- The programs on a tape read on from where the interpreter stopped. -/
theorem sharesInput : console.SharesInput Steady where
  command command tape h := h.forward _
  command_unread command tape _ := unread_forward tape _
  pipeline stages tape h := by
    cases stages with
    | nil => exact h
    | cons first rest => exact h.forward _
  pipeline_unread stages tape _ := by
    cases stages with
    | nil => exact List.suffix_refl _
    | cons first rest => exact unread_forward tape _
  steady _ h := h
  advance count _ h := h.forward count
  advance_unread _ _ _ := rfl
  setInterrupted _ _ h := h
  setInterrupted_unread _ _ _ := rfl
  output := { write := fun _ _ h => h, flush := fun _ h => h }
  write_unread _ _ _ := rfl
  flush_unread _ _ := rfl
  print _ _ h := h
  print_unread _ _ _ := rfl
  complain _ _ h := h
  complain_unread _ _ _ := rfl

theorem steady_readsOf (text : String) (isTerminal : Bool) (startup : Option Bytes) :
    Steady ⟨readsOf text, isTerminal, startup⟩ := by
  intro arrival harrival
  obtain ⟨b, -, rfl⟩ := List.mem_map.mp harrival
  trivial

end Tape

/-! ## A run -/

namespace Console

variable {W : Type u} {console : Console W} {sound : W → Prop}

/-- **Standard input is partitioned.**

In a run that is not interactive and has no line or script to run, before every round the bytes of
standard input are the blocks taken so far, one after another, followed by the bytes that the round finds
unread; of these it takes the next line, if it is not interrupted, and the launches of that line take what
comes then. There is a round that the run ends with, unless its readings are interrupted over and over; and
then the run gives a result, as soon as it may read lines enough. When it is over, the blocks are those of
the rounds it did, and what nobody took is left in its last world. -/
theorem input_partitioned (h : console.SharesInput sound) (env : Environment) {config : Config}
    (hcommand : config.command = none) (hscript : config.script = none) {w : W} (hw : sound w)
    (hterminal : console.isTerminal w = false) :
    let start := Session.start config.historySize
    let round (n : Nat) := console.roundAfter .standardInput false n start w
    let blocks (n : Nat) := (console.rounds .standardInput false n start w).flatMap fun round =>
      console.readBlock round :: console.launchBlocks round
    (∀ n, console.unread w = (blocks n).flatten ++ console.unread (round n).asked ∧
      console.Splits (round n)) ∧
    (∀ bound, (∀ n, bound ≤ n → (round n).event ≠ .interrupted) →
      ∃ n status, console.EndsAfter .standardInput false n start w status) ∧
    (∀ n status, console.EndsAfter .standardInput false n start w status → ∀ limit, n + 1 < limit →
      console.run env config limit w = some (status, (round n).after.2) ∧
        console.unread w = (blocks (n + 1)).flatten ++ console.unread (round n).after.2) ∧
    ∀ limit status final, console.run env config limit w = some (status, final) →
      ∃ n < limit, console.EndsAfter .standardInput false n start w status ∧
        final = (round n).after.2 ∧
        console.unread w = (blocks (n + 1)).flatten ++ console.unread final := by
  intro start round blocks
  have hinteractive : console.isInteractive .standardInput w = false := by
    simp [isInteractive, hterminal]
  have hstartup : console.startup env config .standardInput w = [] := by
    simp [startup, hinteractive]
  have hrun (limit : Nat) : console.run env config limit w =
      (console.loop .standardInput false limit start w).map fun ended => (finalStatus ended.1, ended.2) := by
    rw [run_of_opened hcommand (.standardInput hscript), runSource_eq, hstartup, hinteractive]
    rfl
  have hpartitioned (n : Nat) :
      console.unread w = (blocks (n + 1)).flatten ++ console.unread (round n).after.2 := by
    have hafter := rounds_unread h (n + 1) start hw
    rwa [afterRounds_succ] at hafter
  refine ⟨fun n => ⟨rounds_unread h n start hw, splits_round h _ (afterRounds_sound h n start hw)⟩,
    fun bound => ends_of_interrupts_end h bound hw, fun n status hends limit hlimit => ?_,
    fun limit status final hended => ?_⟩
  · obtain ⟨hloop, hstatus⟩ := loop_of_ends (s := start) rfl hends hlimit
    refine ⟨?_, hpartitioned n⟩
    rw [hrun, hloop]
    exact congrArg (fun status => some (status, (round n).after.2)) hstatus
  · rw [hrun] at hended
    obtain ⟨result, hloop, hresult⟩ := Option.map_eq_some_iff.mp hended
    obtain ⟨rfl, rfl⟩ := Prod.mk.inj hresult
    obtain ⟨n, hn, status, hends, rfl, hstatus⟩ := ends_of_loop (s := start) rfl hloop
    refine ⟨n, hn, ?_, rfl, hpartitioned n⟩
    rw [hstatus]
    exact hends

/-- `head` takes three bytes in the middle of the input, and `cat` what is left of it; then the run is
over. -/
theorem input_partitioned_head_then_cat :
    let config : Config := ⟨none, 10, none, true, none⟩
    let tape : Tape := ⟨Tape.readsOf "head -c 3 | wc\nabccat|\nxyz\nexit 1", false, none⟩
    let rounds := Tape.console.rounds .standardInput false 2 (Session.start 10) tape
    let blocks := rounds.flatMap fun round =>
      Tape.console.readBlock round :: Tape.console.launchBlocks round
    let next := Tape.console.roundAfter .standardInput false 2 (Session.start 10) tape
    Tape.console.SharesInput Tape.Steady ∧ config.command = none ∧ config.script = none ∧
      tape.Steady ∧ tape.isTerminal = false ∧
      blocks = ["head -c 3 | wc\n", "abc", "cat|\n", "xyz\nexit 1"].map (Utf8.encode ·.toList) ∧
      Tape.console.unread tape = blocks.flatten ++ Tape.console.unread next.asked ∧
      Tape.console.Splits next ∧ next.event = .endOfInput ∧
      ∀ limit, 3 < limit →
        Tape.console.run ⟨none, none, none⟩ config limit tape = some (0, next.after.2) := by
  have hsteady := Tape.steady_readsOf "head -c 3 | wc\nabccat|\nxyz\nexit 1" false none
  obtain ⟨hrounds, -, hended, -⟩ := @input_partitioned _ _ _ Tape.sharesInput ⟨none, none, none⟩
    ⟨none, 10, none, true, none⟩ rfl rfl _ hsteady rfl
  exact ⟨Tape.sharesInput, rfl, rfl, hsteady, rfl, by decide, (hrounds 2).1, (hrounds 2).2, rfl,
    fun limit hlimit => (hended 2 0 ⟨by decide, rfl⟩ limit hlimit).1⟩

end Console

end LineShell
