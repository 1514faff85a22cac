import LineShell.Evaluation
import LineShell.Proofs.Syntax.Segment

/-!
# A flat interpreter of lines

A line without bars is parsed into a tree, and the tree is evaluated by mutual recursion. The flat
interpreter needs no tree: it cuts the text at its semicolons, each piece at its `&&`s, and launches
what stands between them until there is a reason to stop.

* `Flat.launchAll`: operands in order, up to the first without words (not launched) and up to the first
  that does not succeed (launched).
* `Flat.runAll`: one piece after another, whatever became of those before.
* `Flat.run?`: the pieces of a line that are not skipped. A piece is skipped when it has neither a `&&`
  nor a word.

Results:
* `run_segment`: evaluating the segment that a piece spells is launching the operands of the piece.
* `run_parse_eq_flat`: parsing and evaluating a line without bars is the flat interpreter, launch by
  launch (the words and the world of each), in its status and in its last world.

What is launched is written down by `Launcher.recording`, which otherwise does what the launcher does.
-/

namespace LineShell

/-- One launch: the commands that were launched together, and the world they started from. -/
structure Launch (W : Type u) where
  commands : List Command
  world : W

/-- The launcher that also writes down each launch. -/
def Launcher.recording {W : Type u} (launcher : Launcher W) :
    Launcher (W × List (Launch W)) where
  command command w :=
    let ran := launcher.command command w.1
    (ran.1, ran.2, w.2 ++ [⟨[command], w.1⟩])
  pipeline stages w :=
    let ran := launcher.pipeline stages w.1
    (ran.1, ran.2, w.2 ++ [⟨stages, w.1⟩])

namespace Flat

/-- What a run comes to: its launches in order, its status and its last world. -/
structure Run (W : Type u) where
  launches : List (Launch W)
  status : Status
  world : W

variable {W : Type u}

/-- A run with launches put before its own. -/
def Run.after (launches : List (Launch W)) (run : Run W) : Run W :=
  { run with launches := launches ++ run.launches }

/-- Launches operands in order, each with its first 64 words: it stops before the first one that has no
words, and after the first one that does not exit with code 0. The status is that of the last operand
launched, `status` if none is. -/
def launchAll (launcher : Launcher W) : List Text → Status → W → Run W
  | [], status, w => ⟨[], status, w⟩
  | operand :: rest, status, w =>
    match (Text.words operand).take 64 with
    | [] => ⟨[], status, w⟩
    | words =>
      let launch : Launch W := ⟨[⟨words⟩], w⟩
      let ran := launcher.command ⟨words⟩ w
      if ran.1 = .exited 0 then (launchAll launcher rest ran.1 ran.2).after [launch]
      else ⟨[launch], ran.1, ran.2⟩

/-- A piece without a `&&` and without words is skipped. -/
def Skipped (piece : Text) : Prop :=
  (Text.operands piece).length = 1 ∧ Text.words piece = []

instance : DecidablePred Skipped := fun _ => inferInstanceAs (Decidable (_ ∧ _))

/-- Runs pieces one after another. The status is that of the last one, `status` if there is none. -/
def runAll (launcher : Launcher W) : List Text → Status → W → Run W
  | [], status, w => ⟨[], status, w⟩
  | piece :: rest, _, w =>
    let ran := launchAll launcher (Text.operands piece) (.exited 0) w
    (runAll launcher rest ran.status ran.world).after ran.launches

/-- The non-empty texts between the semicolons of a line. -/
def pieces (line : Text) : List Text :=
  (line.splitOn ';').filter (· ≠ [])

/-- Runs the pieces of a line that are not skipped, if there is one. -/
def run? (launcher : Launcher W) (line : Text) (w : W) : Option (Run W) :=
  match (pieces line).filter fun piece => ¬ Skipped piece with
  | [] => none
  | kept => some (runAll launcher kept (.exited 0) w)

/-- An operand that spells a command is launched; one that does not ends the launching. -/
theorem launchAll_cons (launcher : Launcher W) (operand : Text) (rest : List Text) (status : Status)
    (w : W) :
    launchAll launcher (operand :: rest) status w =
      match Command.parse? operand with
      | none => ⟨[], status, w⟩
      | some command =>
        let ran := launcher.command command w
        if ran.1 = .exited 0 then (launchAll launcher rest ran.1 ran.2).after [⟨[command], w⟩]
        else ⟨[⟨[command], w⟩], ran.1, ran.2⟩ := by
  rw [Command.parse?_eq, Command.maxWords]
  rw [launchAll]
  cases (Text.words operand).take 64 <;> rfl

/-! ## The recording launcher -/

theorem recording_command (launcher : Launcher W) (command : Command) (w : W)
    (log : List (Launch W)) :
    launcher.recording.command command (w, log) =
      ((launcher.command command w).1, (launcher.command command w).2, log ++ [⟨[command], w⟩]) :=
  rfl

/-- The recording launcher's log is the list of launches. -/
theorem launchAll_recording (launcher : Launcher W) (operands : List Text) (status : Status) (w : W)
    (log : List (Launch W)) :
    let ran := launchAll launcher operands status w
    let recorded := launchAll launcher.recording operands status (w, log)
    recorded.status = ran.status ∧ recorded.world = (ran.world, log ++ ran.launches) := by
  induction operands generalizing status w log with
  | nil => simp [launchAll]
  | cons operand rest ih =>
    simp only [launchAll_cons]
    cases Command.parse? operand with
    | none => simp
    | some command =>
      simp only
      by_cases hok : (launcher.command command w).1 = .exited 0
      · have hok' : (launcher.recording.command command (w, log)).1 = .exited 0 := hok
        rw [if_pos hok, if_pos hok']
        obtain ⟨hstatus, hworld⟩ := ih (launcher.command command w).1 (launcher.command command w).2
          (log ++ [⟨[command], w⟩])
        rw [recording_command]
        exact ⟨hstatus, by simp [Run.after, hworld]⟩
      · have hok' : ¬ (launcher.recording.command command (w, log)).1 = .exited 0 := hok
        rw [if_neg hok, if_neg hok', recording_command]
        exact ⟨rfl, rfl⟩

theorem runAll_recording (launcher : Launcher W) (kept : List Text) (status : Status) (w : W)
    (log : List (Launch W)) :
    let ran := runAll launcher kept status w
    let recorded := runAll launcher.recording kept status (w, log)
    recorded.status = ran.status ∧ recorded.world = (ran.world, log ++ ran.launches) := by
  induction kept generalizing status w log with
  | nil => simp [runAll]
  | cons piece rest ih =>
    obtain ⟨hstatus, hworld⟩ :=
      launchAll_recording launcher (Text.operands piece) (.exited 0) w log
    simp only [runAll, Run.after]
    rw [hstatus, hworld]
    obtain ⟨hstatus', hworld'⟩ := ih
      (launchAll launcher (Text.operands piece) (.exited 0) w).status
      (launchAll launcher (Text.operands piece) (.exited 0) w).world
      (log ++ (launchAll launcher (Text.operands piece) (.exited 0) w).launches)
    exact ⟨hstatus', by rw [hworld', List.append_assoc]⟩

/-! ## From the tree to the text -/

theorem pieces_eq (line : Text) : pieces line = Text.piecesAt ';' line :=
  (Text.piecesAt_eq_splitOn ';' line).symm

theorem skipped_iff {piece : Text} : Skipped piece ↔ Segment.parse? piece = none := by
  rw [Segment.parse?_eq_none_iff]
  unfold Skipped
  cases h : Text.cutAtAnd piece with
  | none => simp [Text.operands_of_no_cut h]
  | some cut =>
    have : (Text.operands cut.2).length ≠ 0 := by simpa using Text.operands_ne_nil cut.2
    simp [Text.operands_of_cut h, this]

/-- **Evaluating a segment is launching the operands of its text.** The induction is on the length of
the text: what follows the first `&&` is a shorter text without semicolons. -/
theorem run_segment (launcher : Launcher W) {piece : Text} (hpiece : ';' ∉ piece) {segment : Segment}
    (hseg : Segment.parse? piece = some segment) (w : W) :
    segment.run launcher w =
      ((launchAll launcher (Text.operands piece) (.exited 0) w).status,
        (launchAll launcher (Text.operands piece) (.exited 0) w).world) := by
  induction hn : piece.length using Nat.strongRecOn generalizing piece segment w with
  | ind n ih =>
    cases hcut : Text.cutAtAnd piece with
    | none =>
      -- one operand, which spells the segment's only command
      rw [Segment.parse?_of_no_cut hcut, Option.map_eq_some_iff] at hseg
      obtain ⟨command, hcommand, rfl⟩ := hseg
      rw [Text.operands_of_no_cut hcut, launchAll_cons, hcommand, Segment.run]
      simp only
      split
      · rfl
      · rfl
    | some cut =>
      obtain ⟨left, right⟩ := cut
      have hright : ';' ∉ right := fun h => hpiece (Text.mem_of_mem_cut_right hcut h)
      have hlt : right.length < n := by
        have := Text.cutAtAnd_length hcut
        omega
      rw [Segment.parse?_of_cut hcut] at hseg
      obtain rfl := Option.some.inj hseg
      rw [Text.operands_of_cut hcut, launchAll_cons, Segment.parseAll?_of_not_mem hright]
      cases hleft : Command.parse? left with
      | none => rfl
      | some command =>
        cases hrest : Segment.parse? right with
        | none =>
          -- a single operand without words follows, so nothing more is launched
          obtain ⟨hnocut, hwords⟩ := Segment.parse?_eq_none_iff.mp hrest
          have hnone : Command.parse? right = none := Command.parse?_eq_none_iff.mpr hwords
          simp only [Option.map_none, Segment.run]
          rw [Text.operands_of_no_cut hnocut, launchAll_cons, hnone]
          split <;> rfl
        | some rest =>
          simp only [Option.map_some, Segment.run, Segment.runAll]
          by_cases hok : (launcher.command command w).1 = .exited 0
          · have := ih right.length hlt hright hrest (launcher.command command w).2 rfl
            rw [if_pos hok, hok, this]
            simp [Status.isSuccess, Status.success, Run.after]
          · rw [if_neg hok]
            simp [Status.isSuccess, Status.success, hok]

/-- Evaluating the segments of pieces, one after another, is running those that are not skipped. -/
theorem run_segments (launcher : Launcher W) {ps : List Text} (hps : ∀ piece ∈ ps, ';' ∉ piece)
    (status : Status) (w : W) :
    Segment.runAll launcher (ps.filterMap Segment.parse?) status w =
      ((runAll launcher (ps.filter fun piece => ¬ Skipped piece) status w).status,
        (runAll launcher (ps.filter fun piece => ¬ Skipped piece) status w).world) := by
  induction ps generalizing status w with
  | nil => rfl
  | cons piece rest ih =>
    have hrest : ∀ other ∈ rest, ';' ∉ other := fun other h => hps other (List.mem_cons_of_mem _ h)
    cases hseg : Segment.parse? piece with
    | none =>
      have hskip : Skipped piece := skipped_iff.mpr hseg
      rw [List.filterMap_cons_none hseg, List.filter_cons_of_neg (by simpa using hskip)]
      exact ih hrest status w
    | some segment =>
      have hkeep : ¬ Skipped piece := fun h => by simp [skipped_iff.mp h] at hseg
      rw [List.filterMap_cons_some hseg, List.filter_cons_of_pos (by simpa using hkeep)]
      simp only [Segment.runAll, runAll, Run.after]
      rw [run_segment launcher (hps piece List.mem_cons_self) hseg w]
      exact ih hrest _ _

/-- Nothing is to be run exactly when every piece is skipped. -/
theorem filterMap_parse?_eq_nil_iff (ps : List Text) :
    ps.filterMap Segment.parse? = [] ↔ ps.filter (fun piece => ¬ Skipped piece) = [] := by
  simp [List.filterMap_eq_nil_iff, List.filter_eq_nil_iff, skipped_iff]

theorem parse?_of_no_bar {line : Text} (hline : '|' ∉ line) :
    Line.parse? line = (Segment.parseAll? line).map .sequence := by
  rw [Line.parse?, if_neg hline]

/-- For every launcher, evaluating a parsed line is running the line flatly. -/
theorem run_eq_run? (launcher : Launcher W) {line : Text} (hline : '|' ∉ line) (w : W) :
    (Line.parse? line).map (fun parsed => parsed.run launcher w) =
      (run? launcher line w).map fun run => (run.status, run.world) := by
  rw [parse?_of_no_bar hline, Segment.parseAll?_eq, run?, pieces_eq]
  have hps : ∀ piece ∈ Text.piecesAt ';' line, ';' ∉ piece :=
    fun piece h => Text.not_mem_of_mem_piecesAt h
  have hrun := run_segments launcher hps (.exited 0) w
  have hnil := filterMap_parse?_eq_nil_iff (Text.piecesAt ';' line)
  cases hsegs : (Text.piecesAt ';' line).filterMap Segment.parse? with
  | nil => rw [hnil.mp hsegs]; rfl
  | cons segment segments =>
    cases hkept : (Text.piecesAt ';' line).filter fun piece => ¬ Skipped piece with
    | nil => rw [hnil.mpr hkept] at hsegs; exact absurd hsegs (by simp)
    | cons piece kept =>
      rw [hsegs, hkept] at hrun
      simp only [Option.map_some, Line.run]
      rw [← hrun]
      rfl

/-- The recording launcher's run of a line has the launches of the run in its log. -/
theorem run?_recording (launcher : Launcher W) (line : Text) (w : W) :
    (run? launcher.recording line (w, [])).map (fun run => (run.status, run.world)) =
      (run? launcher line w).map fun run => (run.status, run.world, run.launches) := by
  unfold run?
  cases hkept : (pieces line).filter fun piece => ¬ Skipped piece with
  | nil => rfl
  | cons piece kept =>
    obtain ⟨hstatus, hworld⟩ := runAll_recording launcher (piece :: kept) (.exited 0) w []
    simp only [Option.map_some]
    rw [hstatus, hworld, List.nil_append]

/-- **Parsing and evaluating a line without bars is the flat interpreter**, for any way in which
commands turn a world into the next and end with a status: it launches the same words from the same
worlds in the same order, and ends with the same status in the same world, whether launches are
written down or not. Nothing is to be run exactly when every piece of the line is skipped. -/
theorem run_parse_eq_flat (launcher : Launcher W) (line : Text) (hline : '|' ∉ line) (w : W) :
    ((Line.parse? line).map fun parsed => parsed.run launcher.recording (w, [])) =
        ((run? launcher line w).map fun run => (run.status, run.world, run.launches)) ∧
      ((Line.parse? line).map fun parsed => parsed.run launcher w) =
        ((run? launcher line w).map fun run => (run.status, run.world)) ∧
      (Line.parse? line = none ↔ ∀ piece ∈ pieces line, Skipped piece) := by
  refine ⟨?_, run_eq_run? launcher hline w, ?_⟩
  · rw [run_eq_run? launcher.recording hline, run?_recording]
  · rw [parse?_of_no_bar hline, Segment.parseAll?_eq, pieces_eq, Option.map_eq_none_iff]
    have hnil := filterMap_parse?_eq_nil_iff (Text.piecesAt ';' line)
    have hall : (Text.piecesAt ';' line).filter (fun piece => ¬ Skipped piece) = [] ↔
        ∀ piece ∈ Text.piecesAt ';' line, Skipped piece := by
      simp [List.filter_eq_nil_iff]
    rw [← hall, ← hnil]
    cases (Text.piecesAt ';' line).filterMap Segment.parse? <;> simp

/-- Three `&` in a row, a piece that begins with `&&`, an empty piece, and a blank operand in the middle
of a chain, where every command exits with code 0 and the world counts launches. -/
theorem run_parse_eq_flat_odd_spelling :
    '|' ∉ "a &&& b; && x;; c && && d".toList ∧
      ((Line.parse? "a &&& b; && x;; c && && d".toList).map fun parsed =>
          parsed.run (Launcher.recording ⟨fun _ n => (.exited 0, n + 1), fun _ n => (.exited 0, n)⟩)
            (0, [])) =
        some (.exited 0, 3, [⟨[⟨[['a']]⟩], 0⟩, ⟨[⟨[['&'], ['b']]⟩], 1⟩, ⟨[⟨[['c']]⟩], 2⟩]) :=
  ⟨by decide, (run_parse_eq_flat _ _ (by decide) 0).1.trans rfl⟩

end Flat

end LineShell
