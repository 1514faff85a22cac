import LineShell.Proofs.Evaluation.Flat
import LineShell.Proofs.Syntax.WellFormed

/-!
# Which commands of a tree run

A command in the rest of a conditional waits for the left command of the conditional, which **guards**
it. In a tree of segments a command may have many guards, one for each conditional that it is in the rest
of, and a guard that is missing is never passed.

* `Occurrence`: a command at its place in a tree, with its guards. `Segment.occurrences` and
  `Segment.occurrencesAll` are those of a tree, numbered from left to right
  (`Segment.occurrencesAll_numbered`).
* `Occurrence.succeeded`: those of some occurrences that end with code 0, when they are run one after
  another.
* `RunsGuarded`: of some occurrences those run of which every guard has run and has succeeded.
* `RunsGuarded.behind_succeeded`, `RunsGuarded.behind_failed` and `RunsGuarded.append`: such runs behind one
  more guard, and one after another.
* `Segment.launched_iff_guarded`: so does evaluation, whatever the tree and whatever its commands do; and
  the status it ends with.
-/

namespace LineShell

theorem Status.isSuccess_iff {status : Status} : status.isSuccess = true ↔ status = .exited 0 := by
  unfold isSuccess success
  exact beq_iff_eq

/-- A command at its place in a tree of segments. -/
structure Occurrence where
  command : Command
  /-- The number of commands that stand to the left of it. -/
  place : Nat
  /-- For each conditional in whose rest the command is, from the outermost on: the place of the left
  command, if the conditional has one. -/
  guards : List (Option Nat)

/-! ## The occurrences of a tree -/

/-- The same occurrence in the rest of one more conditional. -/
def Occurrence.behind (guard : Option Nat) (occurrence : Occurrence) : Occurrence :=
  { occurrence with guards := guard :: occurrence.guards }

@[simp] theorem Occurrence.behind_command (guard : Option Nat) (occurrence : Occurrence) :
    (occurrence.behind guard).command = occurrence.command :=
  rfl

namespace Segment

mutual

/-- The commands of a segment at their places, left to right; the first place is `start`. -/
def occurrences (start : Nat) : Segment → List Occurrence
  | .simple command => [⟨command, start, []⟩]
  | .conditional none none => []
  | .conditional none (some rest) => (occurrencesAll start rest).map (·.behind none)
  | .conditional (some left) none => [⟨left, start, []⟩]
  | .conditional (some left) (some rest) =>
    ⟨left, start, []⟩ :: (occurrencesAll (start + 1) rest).map (·.behind (some start))

/-- The commands of segments at their places, left to right; the first place is `start`. -/
def occurrencesAll (start : Nat) : List Segment → List Occurrence
  | [] => []
  | segment :: rest =>
    segment.occurrences start ++ occurrencesAll (start + segment.commands.length) rest

end

end Segment

namespace Occurrence

/-- A command with its place. -/
def numbered (occurrence : Occurrence) : Command × Nat :=
  (occurrence.command, occurrence.place)

theorem numbered_behind (guard : Option Nat) (all : List Occurrence) :
    (all.map (·.behind guard)).map numbered = all.map numbered := by
  rw [List.map_map]
  rfl

end Occurrence

namespace Segment

mutual

theorem occurrences_numbered (start : Nat) :
    ∀ segment : Segment,
      (segment.occurrences start).map Occurrence.numbered = segment.commands.zipIdx start
  | .simple command => by
    rw [occurrences, commands]
    rfl
  | .conditional none none => by
    rw [occurrences, commands]
    rfl
  | .conditional none (some rest) => by
    rw [occurrences, commands, Occurrence.numbered_behind]
    exact occurrencesAll_numbered start rest
  | .conditional (some left) none => by
    rw [occurrences, commands]
    rfl
  | .conditional (some left) (some rest) => by
    rw [occurrences, commands, List.map_cons, Occurrence.numbered_behind,
      occurrencesAll_numbered (start + 1) rest]
    rfl

/-- The commands of a tree stand at the places from `start` on. -/
theorem occurrencesAll_numbered (start : Nat) :
    ∀ segments : List Segment,
      (occurrencesAll start segments).map Occurrence.numbered = (commandsAll segments).zipIdx start
  | [] => by
    rw [occurrencesAll, commandsAll]
    rfl
  | segment :: rest => by
    rw [occurrencesAll, commandsAll, List.map_append, List.zipIdx_append,
      occurrences_numbered start segment, occurrencesAll_numbered _ rest]

end

end Segment

namespace Occurrence

/-! ## Where guards stand -/

/-- An occurrence stands between two places, and so do its guards. -/
structure Within (lo hi : Nat) (occurrence : Occurrence) : Prop where
  place : lo ≤ occurrence.place ∧ occurrence.place < hi
  guards : ∀ place, some place ∈ occurrence.guards → lo ≤ place ∧ place < hi

theorem Within.mono {lo hi lo' hi' : Nat} {occurrence : Occurrence} (h : occurrence.Within lo hi)
    (hlo : lo' ≤ lo) (hhi : hi ≤ hi') : occurrence.Within lo' hi' := by
  refine ⟨?_, fun place hplace => ?_⟩
  · have := h.place
    omega
  · have := h.guards place hplace
    omega

/-- A guard between the places may be added. -/
theorem Within.behind {lo hi : Nat} {occurrence : Occurrence} {guard : Option Nat}
    (h : occurrence.Within lo hi) (hguard : ∀ place, guard = some place → lo ≤ place ∧ place < hi) :
    (occurrence.behind guard).Within lo hi := by
  refine ⟨h.place, fun place hplace => ?_⟩
  rcases List.mem_cons.mp hplace with hfirst | hlater
  · exact hguard place hfirst.symm
  · exact h.guards place hlater

end Occurrence

namespace Segment

mutual

theorem occurrences_within (start : Nat) :
    ∀ segment : Segment, ∀ occurrence ∈ segment.occurrences start,
      occurrence.Within start (start + segment.commands.length)
  | .simple command, occurrence, hmem => by
    rw [occurrences, List.mem_singleton] at hmem
    subst hmem
    exact ⟨by simp [commands], by simp⟩
  | .conditional none none, occurrence, hmem => by
    rw [occurrences] at hmem
    exact absurd hmem (by simp)
  | .conditional none (some rest), occurrence, hmem => by
    rw [occurrences] at hmem
    obtain ⟨inner, hinner, rfl⟩ := List.mem_map.mp hmem
    rw [commands]
    exact (occurrencesAll_within start rest inner hinner).behind (by simp)
  | .conditional (some left) none, occurrence, hmem => by
    rw [occurrences, List.mem_singleton] at hmem
    subst hmem
    exact ⟨by simp [commands], by simp⟩
  | .conditional (some left) (some rest), occurrence, hmem => by
    have hlength : (commands (.conditional (some left) (some rest))).length =
        (commandsAll rest).length + 1 := by
      simp [commands]
    rw [occurrences] at hmem
    rw [hlength]
    rcases List.mem_cons.mp hmem with rfl | hmem
    · exact ⟨⟨Nat.le_refl _, by simp only; omega⟩, by simp⟩
    · obtain ⟨inner, hinner, rfl⟩ := List.mem_map.mp hmem
      have hwithin := occurrencesAll_within (start + 1) rest inner hinner
      refine (hwithin.mono (by omega) (by omega)).behind fun place hplace => ?_
      obtain rfl := Option.some.inj hplace
      omega

/-- The places of a tree are as many as its commands. -/
theorem occurrencesAll_within (start : Nat) :
    ∀ segments : List Segment, ∀ occurrence ∈ occurrencesAll start segments,
      occurrence.Within start (start + (commandsAll segments).length)
  | [], occurrence, hmem => by
    rw [occurrencesAll] at hmem
    exact absurd hmem (by simp)
  | segment :: rest, occurrence, hmem => by
    rw [occurrencesAll] at hmem
    rw [commandsAll, List.length_append]
    rcases List.mem_append.mp hmem with hfirst | hlater
    · exact (occurrences_within start segment occurrence hfirst).mono (Nat.le_refl _) (by omega)
    · exact (occurrencesAll_within _ rest occurrence hlater).mono (by omega) (by omega)

end

end Segment

variable {W : Type u}

/-! ## Running occurrences -/

namespace Occurrence

/-- The world that commands leave when they are run one after another. -/
def runEach (launcher : Launcher W) (ran : List Occurrence) (w : W) : W :=
  ran.foldl (fun w occurrence => (launcher.command occurrence.command w).2) w

/-- Those that end with code 0 when commands are run one after another. -/
def succeeded (launcher : Launcher W) : List Occurrence → W → List Occurrence
  | [], _ => []
  | occurrence :: rest, w =>
    let ended := launcher.command occurrence.command w
    if ended.1 = .exited 0 then occurrence :: succeeded launcher rest ended.2
    else succeeded launcher rest ended.2

/-- Every guard of an occurrence is among some others. -/
def Passed (done : List Occurrence) (occurrence : Occurrence) : Prop :=
  ∀ guard ∈ occurrence.guards, ∃ left ∈ done, guard = some left.place

/-- A command without guards need not wait. -/
theorem passed_of_unguarded {done : List Occurrence} {occurrence : Occurrence}
    (h : occurrence.guards = []) : occurrence.Passed done := by
  intro guard hguard
  rw [h] at hguard
  exact absurd hguard (by simp)

/-- Others may be added that are no guards. -/
theorem passed_congr {done others : List Occurrence} {occurrence : Occurrence}
    (hsubset : ∀ left ∈ done, left ∈ others)
    (hother : ∀ left ∈ others, left ∈ done ∨ some left.place ∉ occurrence.guards) :
    occurrence.Passed others ↔ occurrence.Passed done := by
  constructor
  · intro hpassed guard hguard
    obtain ⟨left, hleft, rfl⟩ := hpassed guard hguard
    exact ⟨left, (hother left hleft).resolve_right fun hnot => hnot hguard, rfl⟩
  · intro hpassed guard hguard
    obtain ⟨left, hleft, hplace⟩ := hpassed guard hguard
    exact ⟨left, hsubset left hleft, hplace⟩

theorem behind_ne {left : Occurrence} (h : left.guards = []) (guard : Option Nat) (inner : Occurrence) :
    inner.behind guard ≠ left := by
  intro heq
  rw [← heq] at h
  exact absurd h (by simp [behind])

theorem behind_inj {guard : Option Nat} {inner other : Occurrence}
    (h : inner.behind guard = other.behind guard) : inner = other := by
  cases inner
  cases other
  simpa [behind] using h

section

variable {launcher : Launcher W} {ran later : List Occurrence} {w : W}

theorem runEach_append : runEach launcher (ran ++ later) w = runEach launcher later (runEach launcher ran w) :=
  List.foldl_append

theorem succeeded_append :
    succeeded launcher (ran ++ later) w =
      succeeded launcher ran w ++ succeeded launcher later (runEach launcher ran w) := by
  induction ran generalizing w with
  | nil => rfl
  | cons occurrence rest ih =>
    rw [List.cons_append, succeeded, succeeded]
    split
    · rw [ih]
      rfl
    · rw [ih]
      rfl

/-- What succeeds has run. -/
theorem succeeded_sublist : (succeeded launcher ran w).Sublist ran := by
  induction ran generalizing w with
  | nil => exact List.Sublist.refl _
  | cons occurrence rest ih =>
    rw [succeeded]
    split
    · exact List.Sublist.cons_cons _ ih
    · exact List.Sublist.cons _ ih

theorem runEach_behind (guard : Option Nat) :
    runEach launcher (ran.map (·.behind guard)) w = runEach launcher ran w := by
  unfold runEach
  rw [List.foldl_map]
  rfl

theorem succeeded_behind (guard : Option Nat) :
    succeeded launcher (ran.map (·.behind guard)) w = (succeeded launcher ran w).map (·.behind guard) := by
  induction ran generalizing w with
  | nil => rfl
  | cons occurrence rest ih =>
    simp only [List.map_cons, succeeded, behind_command, ih]
    split
    · rfl
    · rfl

/-- Writing down the launches makes no difference to what succeeds. -/
theorem succeeded_recording (log : List (Launch W)) :
    succeeded launcher.recording ran (w, log) = succeeded launcher ran w := by
  induction ran generalizing w log with
  | nil => rfl
  | cons occurrence rest ih =>
    rw [succeeded, succeeded, Flat.recording_command]
    simp only
    split
    · rw [ih]
    · exact ih _

/-- The launches that are written down are those of the commands, in order. -/
theorem commands_runEach_recording (log : List (Launch W)) :
    (runEach launcher.recording ran (w, log)).2.map Launch.commands =
      log.map Launch.commands ++ ran.map fun occurrence => [occurrence.command] := by
  induction ran generalizing w log with
  | nil => simp [runEach]
  | cons occurrence rest ih =>
    have hrest := @ih (launcher.command occurrence.command w).2 (log ++ [⟨[occurrence.command], w⟩])
    rw [List.map_append, List.append_assoc] at hrest
    exact hrest

end

end Occurrence

/-! ## Running under guards -/

open Occurrence

/-- Of the occurrences `all` those in `ran` are run, one after another: those of which every guard has run
and has succeeded. -/
structure RunsGuarded (launcher : Launcher W) (all ran : List Occurrence) (w last : W) : Prop where
  subsequence : ran.Sublist all
  world : last = runEach launcher ran w
  passed : ∀ occurrence ∈ all, occurrence ∈ ran ↔ occurrence.Passed (succeeded launcher ran w)

namespace RunsGuarded

variable {launcher : Launcher W} {all ran later : List Occurrence} {w last : W}

/-- Nothing is run where every occurrence has a guard that is missing. -/
theorem of_unguarded (h : ∀ occurrence ∈ all, none ∈ occurrence.guards) :
    RunsGuarded launcher all [] w w := by
  refine ⟨List.nil_sublist _, rfl, fun occurrence hmem => ⟨fun hran => ?_, fun hpassed => ?_⟩⟩
  · exact absurd hran (by simp)
  · obtain ⟨left, hleft, -⟩ := hpassed none (h occurrence hmem)
    exact absurd hleft (by simp [succeeded])

/-- A command without guards is run. -/
theorem singleton (command : Command) (place : Nat) :
    RunsGuarded launcher [⟨command, place, []⟩] [⟨command, place, []⟩] w (launcher.command command w).2 := by
  refine ⟨List.Sublist.refl _, rfl, fun occurrence hmem => ⟨fun _ => ?_, fun _ => hmem⟩⟩
  exact passed_of_unguarded (List.mem_singleton.mp hmem ▸ rfl)

/-- A guard that fails keeps all behind it from running. -/
theorem behind_failed (left : Occurrence) (hleft : left.guards = [])
    (hfails : (launcher.command left.command w).1 ≠ .exited 0) :
    RunsGuarded launcher (left :: all.map (·.behind (some left.place))) [left] w
      (launcher.command left.command w).2 := by
  have hnone : succeeded launcher [left] w = [] := by
    rw [succeeded, if_neg hfails]
    rfl
  refine ⟨List.Sublist.cons_cons _ (List.nil_sublist _), rfl, fun occurrence hmem => ?_⟩
  rw [hnone]
  rcases List.mem_cons.mp hmem with rfl | hmem
  · exact ⟨fun _ => passed_of_unguarded hleft, fun _ => List.mem_singleton_self _⟩
  · obtain ⟨inner, -, rfl⟩ := List.mem_map.mp hmem
    constructor
    · intro hran
      exact absurd (List.mem_singleton.mp hran) (behind_ne hleft _ inner)
    · intro hpassed
      obtain ⟨other, hother, -⟩ := hpassed (some left.place) List.mem_cons_self
      exact absurd hother (by simp)

/-- A guard that succeeds is one more command to run before those that it guards. -/
theorem behind_succeeded (left : Occurrence) {hi : Nat} (hleft : left.guards = [])
    (hsucceeds : (launcher.command left.command w).1 = .exited 0)
    (hwithin : ∀ occurrence ∈ all, occurrence.Within (left.place + 1) hi)
    (h : RunsGuarded launcher all ran (launcher.command left.command w).2 last) :
    RunsGuarded launcher (left :: all.map (·.behind (some left.place)))
      (left :: ran.map (·.behind (some left.place))) w last := by
  have hdone : succeeded launcher (left :: ran.map (·.behind (some left.place))) w =
      left :: (succeeded launcher ran (launcher.command left.command w).2).map
        (·.behind (some left.place)) := by
    rw [succeeded, if_pos hsucceeds, succeeded_behind]
  refine ⟨List.Sublist.cons_cons _ (h.subsequence.map _), ?_, fun occurrence hmem => ?_⟩
  · rw [h.world, ← runEach_behind (some left.place)]
    rfl
  rw [hdone]
  rcases List.mem_cons.mp hmem with rfl | hmem
  · exact ⟨fun _ => passed_of_unguarded hleft, fun _ => List.mem_cons_self⟩
  obtain ⟨inner, hinner, rfl⟩ := List.mem_map.mp hmem
  have hran : inner.behind (some left.place) ∈ left :: ran.map (·.behind (some left.place)) ↔
      inner ∈ ran := by
    constructor
    · intro hran
      obtain ⟨other, hother, hsame⟩ :=
        List.mem_map.mp ((List.mem_cons.mp hran).resolve_left (behind_ne hleft _ inner))
      exact behind_inj hsame ▸ hother
    · intro hran
      exact List.mem_cons_of_mem _ (List.mem_map_of_mem hran)
  rw [hran, h.passed inner hinner]
  constructor
  · intro hpassed guard hguard
    rcases List.mem_cons.mp hguard with rfl | hguard
    · exact ⟨left, List.mem_cons_self, rfl⟩
    · obtain ⟨other, hother, hplace⟩ := hpassed guard hguard
      exact ⟨other.behind (some left.place), List.mem_cons_of_mem _ (List.mem_map_of_mem hother), hplace⟩
  · intro hpassed guard hguard
    obtain ⟨other, hother, hplace⟩ := hpassed guard (List.mem_cons_of_mem _ hguard)
    rcases List.mem_cons.mp hother with rfl | hother
    · -- the places of the other guards come after that of the new one
      have hbound := (hwithin inner hinner).guards other.place (hplace ▸ hguard)
      omega
    · obtain ⟨before, hbefore, rfl⟩ := List.mem_map.mp hother
      exact ⟨before, hbefore, hplace⟩

/-- Runs under guards one after another, if their places are apart. -/
theorem append {lo mid hi : Nat} {first second : List Occurrence} {between : W}
    (hfirst : ∀ occurrence ∈ first, occurrence.Within lo mid)
    (hsecond : ∀ occurrence ∈ second, occurrence.Within mid hi)
    (h : RunsGuarded launcher first ran w between) (h' : RunsGuarded launcher second later between last) :
    RunsGuarded launcher (first ++ second) (ran ++ later) w last := by
  have hworld : runEach launcher ran w = between := h.world.symm
  have hearly : ∀ left ∈ ran, left.place < mid := fun left hleft =>
    (hfirst left (h.subsequence.subset hleft)).place.2
  have hlate : ∀ left ∈ later, mid ≤ left.place := fun left hleft =>
    (hsecond left (h'.subsequence.subset hleft)).place.1
  refine ⟨h.subsequence.append h'.subsequence, ?_, fun occurrence hmem => ?_⟩
  · rw [runEach_append, hworld]
    exact h'.world
  rw [succeeded_append, hworld, List.mem_append]
  rcases List.mem_append.mp hmem with hmem | hmem
  · have hwithin := hfirst occurrence hmem
    have hother : occurrence ∉ later := fun hran =>
      absurd (hlate occurrence hran) (Nat.not_le.mpr hwithin.place.2)
    rw [or_iff_left hother, h.passed occurrence hmem]
    refine (passed_congr (fun left => List.mem_append_left _) fun left hleft => ?_).symm
    refine (List.mem_append.mp hleft).imp id fun hleft hguard => ?_
    have hbound := hwithin.guards left.place hguard
    have hplace := hlate left (succeeded_sublist.subset hleft)
    omega
  · have hwithin := hsecond occurrence hmem
    have hother : occurrence ∉ ran := fun hran =>
      absurd (hearly occurrence hran) (Nat.not_lt.mpr hwithin.place.1)
    rw [or_iff_right hother, h'.passed occurrence hmem]
    refine (passed_congr (fun left => List.mem_append_right _) fun left hleft => ?_).symm
    refine (List.mem_append.mp hleft).symm.imp id fun hleft hguard => ?_
    have hbound := hwithin.guards left.place hguard
    have hplace := hearly left (succeeded_sublist.subset hleft)
    omega

end RunsGuarded

namespace Segment

/-! ## Evaluation -/

mutual

theorem run_guarded (launcher : Launcher W) :
    ∀ (segment : Segment) (start : Nat) (w : W), ∃ ran,
      RunsGuarded launcher (segment.occurrences start) ran w (segment.run launcher w).2
  | .simple command, start, w => by
    rw [occurrences, run]
    exact ⟨_, .singleton command start⟩
  | .conditional none none, start, w => by
    rw [occurrences, run]
    exact ⟨[], .of_unguarded (by simp)⟩
  | .conditional none (some rest), start, w => by
    rw [occurrences, run]
    refine ⟨[], .of_unguarded fun occurrence hmem => ?_⟩
    obtain ⟨inner, -, rfl⟩ := List.mem_map.mp hmem
    exact List.mem_cons_self
  | .conditional (some left) none, start, w => by
    rw [occurrences, run]
    exact ⟨_, .singleton left start⟩
  | .conditional (some left) (some rest), start, w => by
    rw [occurrences, run]
    by_cases hsucceeds : (launcher.command left w).1 = .exited 0
    · obtain ⟨ran, hran⟩ := runAll_guarded launcher rest (start + 1) .success (launcher.command left w).2
      rw [if_pos (Status.isSuccess_iff.mpr hsucceeds)]
      exact ⟨_, .behind_succeeded ⟨left, start, []⟩ rfl hsucceeds
        (occurrencesAll_within (start + 1) rest) hran⟩
    · rw [if_neg fun h => hsucceeds (Status.isSuccess_iff.mp h)]
      exact ⟨_, .behind_failed ⟨left, start, []⟩ rfl hsucceeds⟩

/-- **Evaluating a tree runs its commands under their guards.** -/
theorem runAll_guarded (launcher : Launcher W) :
    ∀ (segments : List Segment) (start : Nat) (status : Status) (w : W), ∃ ran,
      RunsGuarded launcher (occurrencesAll start segments) ran w (runAll launcher segments status w).2
  | [], start, status, w => by
    rw [occurrencesAll, runAll]
    exact ⟨[], .of_unguarded (by simp)⟩
  | segment :: rest, start, status, w => by
    obtain ⟨ran, hran⟩ := run_guarded launcher segment start w
    obtain ⟨later, hlater⟩ := runAll_guarded launcher rest (start + segment.commands.length)
      (segment.run launcher w).1 (segment.run launcher w).2
    rw [occurrencesAll, runAll]
    exact ⟨ran ++ later, .append (occurrences_within start segment) (occurrencesAll_within _ rest)
      hran hlater⟩

end

/-- Segments are run after those before them, and their status counts unless there are none. -/
theorem runAll_append (launcher : Launcher W) (segments later : List Segment) (status : Status) (w : W) :
    runAll launcher (segments ++ later) status w =
      runAll launcher later (runAll launcher segments status w).1 (runAll launcher segments status w).2 := by
  induction segments generalizing status w with
  | nil => rfl
  | cons segment rest ih =>
    rw [List.cons_append, runAll, runAll]
    exact ih _ _

end Segment

/-! ## Launches -/

/-- Of the occurrences `all`, which stand for commands at their places, a run from `w` on launches those of
which every guard was launched and exited with code 0, in order and each once; a launch starts in the
world that the one before it left, and the last one leaves that of the run. -/
def LaunchedUnderGuards (launcher : Launcher W) (all : List Occurrence) (w : W)
    (recorded : W × List (Launch W)) : Prop :=
  ∃ ran : List Occurrence, ran.Sublist all ∧ (ran.map place).Nodup ∧
    recorded = runEach launcher.recording ran (w, []) ∧
    recorded.2.map Launch.commands = ran.map (fun occurrence => [occurrence.command]) ∧
    ∀ occurrence ∈ all, occurrence ∈ ran ↔
      ∀ guard ∈ occurrence.guards, ∃ left ∈ succeeded launcher ran w, guard = some left.place

/-- What runs under guards and is written down is launched under guards. -/
theorem RunsGuarded.launched {launcher : Launcher W} {all ran : List Occurrence} {w : W}
    {recorded : W × List (Launch W)} {commands : List Command} {start : Nat}
    (h : RunsGuarded launcher.recording all ran (w, []) recorded)
    (hnumbered : all.map numbered = commands.zipIdx start) :
    LaunchedUnderGuards launcher all w recorded := by
  have hplaces : all.map place = List.range' start commands.length := by
    rw [← List.zipIdx_map_snd start commands, ← hnumbered, List.map_map]
    rfl
  have honce : (all.map place).Nodup := by
    rw [hplaces]
    exact List.nodup_range'
  refine ⟨ran, h.subsequence, (h.subsequence.map place).nodup honce, h.world, ?_, ?_⟩
  · rw [h.world, commands_runEach_recording]
    rfl
  · rw [← succeeded_recording []]
    exact h.passed

namespace Segment

/-- **Which commands of a tree run, and what status counts.** Whatever commands do, evaluating a segment or
a sequence launches a command exactly if every conditional in whose rest it stands has a left command that
was launched and exited with code 0. Commands are launched from left to right, each at most once.

An empty sequence ends with code 0 and any other with the status of its last segment, which is run in the
world that the others left. A conditional ends with code 0 if it has no left command, with the status of
its rest if it has one and the left command exited with code 0, and with that of the left command
otherwise. -/
theorem launched_iff_guarded (launcher : Launcher W) (w : W) :
    (∀ segment : Segment, (segment.occurrences 0).map numbered = segment.commands.zipIdx ∧
      LaunchedUnderGuards launcher (segment.occurrences 0) w (segment.run launcher.recording (w, [])).2) ∧
    (∀ segments : List Segment,
      (occurrencesAll 0 segments).map numbered = (commandsAll segments).zipIdx ∧
      LaunchedUnderGuards launcher (occurrencesAll 0 segments) w
        (runAll launcher.recording segments .success (w, [])).2) ∧
    (runAll launcher [] .success w).1 = .exited 0 ∧
    (∀ segments last, (runAll launcher (segments ++ [last]) .success w).1 =
      (last.run launcher (runAll launcher segments .success w).2).1) ∧
    (∀ command, (run launcher (.simple command) w).1 = (launcher.command command w).1) ∧
    (∀ rest, (run launcher (.conditional none rest) w).1 = .exited 0) ∧
    (∀ left rest, (launcher.command left w).1 = .exited 0 →
      (run launcher (.conditional (some left) (some rest)) w).1 =
        (runAll launcher rest .success (launcher.command left w).2).1) ∧
    ∀ left rest, rest = none ∨ (launcher.command left w).1 ≠ .exited 0 →
      (run launcher (.conditional (some left) rest) w).1 = (launcher.command left w).1 := by
  refine ⟨fun segment => ?_, fun segments => ?_, rfl, fun segments last => ?_, fun command => ?_,
    fun rest => ?_, fun left rest hsucceeds => ?_, fun left rest hends => ?_⟩
  · obtain ⟨ran, hran⟩ := run_guarded launcher.recording segment 0 (w, [])
    exact ⟨occurrences_numbered 0 segment, hran.launched (occurrences_numbered 0 segment)⟩
  · obtain ⟨ran, hran⟩ := runAll_guarded launcher.recording segments 0 .success (w, [])
    exact ⟨occurrencesAll_numbered 0 segments, hran.launched (occurrencesAll_numbered 0 segments)⟩
  · rw [runAll_append]
    rfl
  · rw [run]
  · rw [run]
    rfl
  · rw [run, if_pos (Status.isSuccess_iff.mpr hsucceeds)]
  · cases rest with
    | none => rw [run]
    | some rest =>
      have hfails : (launcher.command left w).1 ≠ .exited 0 := hends.resolve_left (by simp)
      rw [run, if_neg fun h => hfails (Status.isSuccess_iff.mp h)]

/-- Of six commands the second is behind a guard that is missing and the fifth behind one that fails; the
rest of the last is empty. -/
theorem launched_iff_guarded_nested :
    let named (name : Char) : Command := ⟨[[name]]⟩
    let launcher : Launcher Nat :=
      ⟨fun command n => (.exited (if command = named 'd' then 1 else 0), n + 1), fun _ n => (.success, n)⟩
    let rest := [.conditional none (some [.simple (named 'b')]), .simple (named 'c'),
      .conditional (some (named 'd')) (some [.simple (named 'e')]), .conditional (some (named 'f')) (some [])]
    let tree : Segment := .conditional (some (named 'a')) (some rest)
    (tree.occurrences 0).map guards =
        [[], [some 0, none], [some 0], [some 0], [some 0, some 3], [some 0]] ∧
      LaunchedUnderGuards launcher (tree.occurrences 0) 0
        (4, [⟨[named 'a'], 0⟩, ⟨[named 'c'], 1⟩, ⟨[named 'd'], 2⟩, ⟨[named 'f'], 3⟩]) ∧
      (launcher.command (named 'a') 0).1 = .exited 0 ∧
      (tree.run launcher 0).1 = (runAll launcher rest .success 1).1 := by
  intro named launcher rest tree
  obtain ⟨hsegment, -, -, -, -, -, hrest, -⟩ := launched_iff_guarded launcher 0
  exact ⟨rfl, (hsegment tree).2, rfl, hrest (named 'a') rest rfl⟩

end Segment

end LineShell
