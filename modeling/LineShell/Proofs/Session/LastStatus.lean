import LineShell.Kernel.Host
import LineShell.Proofs.Evaluation.Status
import LineShell.Proofs.Kernel.Laws
import LineShell.Proofs.Kernel.Reap
import LineShell.Proofs.Session.Dispatch
import LineShell.Proofs.Session.Dispatches

/-!
# What the last status tells

A dispatched line that is a built-in or has something to run comes to an `Ending`; one in which there is
nothing to run comes to none, and is as if it had not been.

* `Machine.launcher_ends`: whatever children do, and whatever fails on the interpreter's side, a launch
  ends with a status that a wait word stands for.
* `Session.dispatchAll_lastStatus`: the last status is the code of the last ending.
* `Session.code_of_mem_endings`: an ending is from 0 to 255 unless its line is an `exit`.
* `Session.last_ending_shown`: so until a session is over its status is in that range, and its prompt
  shows a status exactly after a failure.
-/

namespace LineShell

variable {σ : Type u} {W : Type v}

/-! ## What children report -/

/-- What was reaped has statuses that wait words stand for. -/
theorem reap_reported {pids : List Pid} {outcomes rest : List WaitOutcome}
    {reaped : List (Pid × Status)} (h : reap pids outcomes = some (.ok reaped, rest)) :
    ∀ child ∈ reaped, child.2.Reported := by
  induction outcomes generalizing pids reaped rest with
  | nil =>
    cases pids with
    | nil =>
      obtain ⟨hreaped, -⟩ := Prod.mk.inj (Option.some.inj h)
      obtain rfl := Except.ok.inj hreaped
      simp
    | cons first others => exact absurd h (by simp [reap])
  | cons outcome outcomes ih =>
    cases pids with
    | nil =>
      obtain ⟨hreaped, -⟩ := Prod.mk.inj (Option.some.inj h)
      obtain rfl := Except.ok.inj hreaped
      simp
    | cons first others =>
      cases outcome with
      | failed errno =>
        rw [reap] at h
        split at h
        · exact ih h
        · split at h
          · obtain ⟨hreaped, -⟩ := Prod.mk.inj (Option.some.inj h)
            obtain rfl := Except.ok.inj hreaped
            simp
          · exact absurd h (by simp)
      | reaped pid word =>
        by_cases hpid : pid ∈ first :: others
        · rw [reap_reaped_of_mem hpid, Option.map_eq_some_iff] at h
          obtain ⟨⟨result, left⟩, hreap, hended⟩ := h
          obtain ⟨hresult, -⟩ := Prod.mk.inj hended
          cases result with
          | error errno => exact absurd hresult (by simp [Except.map])
          | ok later =>
            obtain rfl := Except.ok.inj hresult
            intro child hchild
            rcases List.mem_cons.mp hchild with rfl | hchild
            · exact ⟨word, rfl⟩
            · exact ih hreap child hchild
        · rw [reap_reaped_of_not_mem (List.cons_ne_nil _ _) hpid] at h
          exact ih h

theorem reapOne_reported {pid : Pid} {outcomes rest : List WaitOutcome} {status : Status}
    (h : reapOne pid outcomes = (.ok status, rest)) : status.Reported := by
  induction outcomes generalizing rest with
  | nil => exact absurd h (by simp [reapOne])
  | cons outcome outcomes ih =>
    cases outcome with
    | failed errno =>
      rw [reapOne] at h
      split at h
      · exact ih h
      · exact absurd h (by simp)
    | reaped other word =>
      rw [reapOne] at h
      split at h
      · obtain ⟨hstatus, -⟩ := Prod.mk.inj h
        exact ⟨word, (Except.ok.inj hstatus).symm⟩
      · obtain ⟨hstatus, -⟩ := Prod.mk.inj h
        exact ih (Prod.ext hstatus rfl)

namespace Machine

theorem waitAll_reported {k : Kernel σ} {pids : List Pid} {m : Machine σ}
    {reaped : List (Pid × Status)} (h : (m.waitAll k pids).1 = .ok reaped) :
    ∀ child ∈ reaped, child.2.Reported := by
  cases pids with
  | nil =>
    obtain rfl := Except.ok.inj h
    simp
  | cons pid pids =>
    obtain ⟨⟨result, rest⟩, hreap⟩ := Option.isSome_iff_exists.mp
      (reap_isSome (pid :: pids) (m.await k).outcomes)
    rw [waitAll_cons hreap] at h
    obtain rfl : result = .ok reaped := h
    exact reap_reported hreap

/-- The status of a pipeline is one of those reaped, or a failure. -/
theorem pipelineStatus_reported (pids : List Pid) {reaped : List (Pid × Status)}
    (h : ∀ child ∈ reaped, child.2.Reported) : (pipelineStatus pids reaped).Reported := by
  unfold pipelineStatus
  split
  · rename_i child hfind
    exact h child (List.mem_of_find?_eq_some hfind)
  · exact Status.reported_failure

theorem runPipeline_reported {k : Kernel σ} {body : ChildBody σ} {stages : List Command}
    {m : Machine σ} {status : Status} (h : (m.runPipeline k body stages).1 = .ok status) :
    status.Reported := by
  unfold runPipeline at h
  simp only at h
  split at h
  · exact absurd h (by simp)
  · exact absurd h (by simp)
  · rename_i reaped m' hwait hfailure
    obtain rfl := Except.ok.inj h
    exact pipelineStatus_reported _ (waitAll_reported (congrArg Prod.fst hwait))

theorem runSimple_reported {k : Kernel σ} {body : ChildBody σ} {command : Command} {m : Machine σ}
    {status : Status} (h : (m.runSimple k body command).1 = .ok status) : status.Reported := by
  unfold runSimple at h
  rcases grants_or_refuses k m with ⟨world, hfork⟩ | ⟨errno, hfork⟩
  · rw [forkChild_granted hfork] at h
    simp only [waitFor] at h
    cases hone : (reapOne m.nextPid
        (((m.granted k world).fork k (body command.words)).2.await k).outcomes).1 with
    | error errno =>
      rw [hone] at h
      exact absurd h (by simp [Except.mapError])
    | ok ended =>
      rw [hone] at h
      obtain rfl := Except.ok.inj h
      exact reapOne_reported (Prod.ext hone rfl)
  · rw [forkChild_refused hfork] at h
    exact absurd h (by simp)

/-- A failure on the interpreter's side counts as a failed command. -/
theorem settle_reported {k : Kernel σ} {ran : Except ProcessError Status × Machine σ}
    (h : ∀ status, ran.1 = .ok status → status.Reported) : (settle k ran).1.Reported := by
  obtain ⟨result, m⟩ := ran
  cases result with
  | ok status => exact h status rfl
  | error e => exact Status.reported_failure

/-- **A launch ends with a status that a wait word stands for**, whatever the system and the children
do. -/
theorem launcher_ends (k : Kernel σ) (body : ChildBody σ) :
    (launcher k body).Ends Status.Reported where
  command _ _ := settle_reported fun _ h => runSimple_reported h
  pipeline _ _ := settle_reported fun _ h => runPipeline_reported h

end Machine

/-! ## Endings -/

/-- What a dispatched line comes to, if it is a built-in or runs. -/
inductive Ending where
  | builtin (status : Int)
  | line (status : Status)
  deriving DecidableEq, Repr

namespace Ending

/-- The number that a session shows for an ending. -/
def code : Ending → Int
  | .builtin status => status
  | .line status => status.code

/-- A built-in fails with a status other than 0, and a line with whatever does not let `&&` go on. -/
def failed : Ending → Bool
  | .builtin status => status ≠ 0
  | .line status => !status.isSuccess

theorem failed_iff {ending : Ending} : ending.failed = true ↔ ending.code ≠ 0 := by
  cases ending with
  | builtin status => simp [failed, code]
  | line status =>
    have hsuccess : status.isSuccess = true ↔ status.code = 0 := Status.isSuccess_iff_code_eq_zero
    simp [failed, code, ← hsuccess]

end Ending

/-- The status of `history` is 0, 1 or 2, wherever its output goes. -/
theorem Builtin.perform_history_status (out : Writer W) (argument : Option Text) (s : Session) (w : W) :
    0 ≤ ((Builtin.history argument).perform out s w).status ∧
      ((Builtin.history argument).perform out s w).status ≤ 2 := by
  have hlisted (count : Option Nat) :
      0 ≤ (listed out count s w).status ∧ (listed out count s w).status ≤ 2 := by
    rw [listed_eq]
    simp only
    split <;> decide
  cases argument with
  | none => exact hlisted none
  | some text =>
    cases hnumber : Text.count? text with
    | none => simp [perform, hnumber]
    | some count =>
      simp only [perform, hnumber]
      exact hlisted (some count)

namespace Session

/-- What a dispatch of a line comes to; nothing where there is nothing to run. -/
def ending? (host : Host W) (line : Text) (s : Session) (w : W) : Option Ending :=
  match Builtin.recognize? line with
  | some builtin => some (.builtin (builtin.perform host.output s w).status)
  | none => (Line.parse? line).map fun parsed => .line (parsed.run host.toLauncher w).1

/-- The status that a dispatch of a line answers with: where there is nothing to run, the one from
before. -/
def answer (host : Host W) (line : Text) (s : Session) (w : W) : Int :=
  (ending? host line s w).elim s.lastStatus Ending.code

/-- The endings of lines dispatched one after another. -/
def endings (host : Host W) : List (Text × Bool) → Session → W → List Ending
  | [], _, _ => []
  | (line, record) :: rest, s, w =>
    let ran := s.dispatch host line record w
    (ending? host line s w).toList ++ endings host rest ran.1 ran.2

section

variable (host : Host W)

/-- After a dispatch the last status is what it answered with. -/
theorem dispatch_lastStatus (line : Text) (record : Bool) (s : Session) (w : W) :
    (s.dispatch host line record w).1.lastStatus = answer host line s w := by
  unfold answer ending?
  cases hbuiltin : Builtin.recognize? line with
  | some builtin =>
    rw [dispatch_of_builtin host hbuiltin, runBuiltin_fst]
    rfl
  | none =>
    cases hparse : Line.parse? line with
    | none =>
      rw [dispatch_of_nothing host hbuiltin hparse]
      cases record <;> rfl
    | some parsed =>
      rw [dispatch_of_line host hbuiltin hparse, runLine_fst]
      rfl

/-- **The last status is the code of the last ending.** -/
theorem dispatchAll_lastStatus (lines : List (Text × Bool)) (s : Session) (w : W) :
    (dispatchAll host lines s w).1.lastStatus =
      (endings host lines s w).getLast?.elim s.lastStatus Ending.code := by
  induction lines generalizing s w with
  | nil => rfl
  | cons line rest ih =>
    obtain ⟨line, record⟩ := line
    rw [dispatchAll, endings, ih, dispatch_lastStatus, answer, List.getLast?_append]
    cases (endings host rest (s.dispatch host line record w).1
      (s.dispatch host line record w).2).getLast? with
    | some last => rfl
    | none => cases ending? host line s w <;> rfl

/-- A session is over after lines of which one is an `exit`. -/
theorem dispatchAll_shouldExit (lines : List (Text × Bool)) (s : Session) (w : W) :
    (dispatchAll host lines s w).1.shouldExit =
      (s.shouldExit || lines.any fun line => (Builtin.exitStatus? line.1).isSome) := by
  induction lines generalizing s w with
  | nil => simp [dispatchAll]
  | cons line rest ih =>
    rw [dispatchAll, ih, dispatch_shouldExit, List.any_cons, Bool.or_assoc]

variable {host}

/-- What a line that is no `exit` comes to is from 0 to 255. -/
theorem code_of_ending? (h : host.toLauncher.Ends Status.Reported) {line : Text}
    (hexit : Builtin.exitStatus? line = none) {s : Session} {w : W} {ending : Ending}
    (hending : ending? host line s w = some ending) : 0 ≤ ending.code ∧ ending.code ≤ 255 := by
  unfold ending? at hending
  unfold Builtin.exitStatus? at hexit
  cases hbuiltin : Builtin.recognize? line with
  | some builtin =>
    rw [hbuiltin] at hending hexit
    obtain rfl := Option.some.inj hending
    cases builtin with
    | exit argument => exact absurd hexit (by simp)
    | history argument =>
      obtain ⟨hge, hle⟩ := Builtin.perform_history_status host.output argument s w
      rw [Ending.code]
      exact ⟨hge, Int.le_trans hle (by decide)⟩
  | none =>
    rw [hbuiltin] at hending
    obtain ⟨parsed, -, rfl⟩ := Option.map_eq_some_iff.mp hending
    have hcode := (Line.run_ends h Status.reported_success parsed w).code_le
    rw [Ending.code]
    omega

/-- Each ending of lines that are no `exit` is from 0 to 255. -/
theorem code_of_mem_endings (h : host.toLauncher.Ends Status.Reported) {lines : List (Text × Bool)}
    (hexit : ∀ line ∈ lines, Builtin.exitStatus? line.1 = none) {s : Session} {w : W} :
    ∀ ending ∈ endings host lines s w, 0 ≤ ending.code ∧ ending.code ≤ 255 := by
  induction lines generalizing s w with
  | nil => simp [endings]
  | cons line rest ih =>
    intro ending hmem
    rcases List.mem_append.mp hmem with hmem | hmem
    · exact code_of_ending? h (hexit line List.mem_cons_self) (Option.mem_toList.mp hmem)
    · exact ih (fun other hother => hexit other (List.mem_cons_of_mem line hother)) ending hmem

end

/-- **Until a session is over, its status and its prompt tell how the last line ended.**

A wait word, whatever its bits, stands for a code of at most 255, which is 0 exactly for a success, and
nothing else lets `&&` go on. The launches of the interpreter end with such statuses, whatever fails on its
side. In a session that has had any lines dispatched, whatever its output takes of what they print, and
that is not over, the last status is from 0 to 255, and 0 before any line ran; and the prompt shows it
exactly if the last line that ran or was a built-in failed. A dispatch leaves the status that it answers
with, and one in which there is nothing to run changes nothing of this. -/
theorem last_ending_shown :
    (∀ word : Int32,
      let status := Status.ofWord word
      status.code ≤ 255 ∧ (status.isSuccess = true ↔ status.code = 0) ∧
      (status.isSuccess = true ↔ word &&& 0xFF7F = 0) ∧
      ∀ (launcher : Launcher W) (left : Command) (rest : Option (List Segment)) (w : W),
        (launcher.command left w).1 = status → status.isSuccess = false →
          (Segment.conditional (some left) rest).run launcher w = launcher.command left w) ∧
    (∀ (k : Kernel σ) (body : ChildBody σ), (Machine.launcher k body).Ends Status.Reported) ∧
    ∀ host : Host W, host.toLauncher.Ends Status.Reported →
      ∀ (capacity : Nat) (lines : List (Text × Bool)) (w : W),
        let reached := dispatchAll host lines (start capacity) w
        let last? := (endings host lines (start capacity) w).getLast?
        (reached.1.shouldExit = false →
          (0 ≤ reached.1.lastStatus ∧ reached.1.lastStatus ≤ 255) ∧
          reached.1.lastStatus = last?.elim 0 Ending.code ∧
          reached.1.prompt =
            if last?.any Ending.failed
            then '[' :: Text.ofInt reached.1.lastStatus ++ "] vsh$ ".toList else "vsh$ ".toList) ∧
        ∀ (line : Text) (record : Bool),
          let next := dispatchAll host (lines ++ [(line, record)]) (start capacity) w
          next.1.lastStatus = answer host line reached.1 reached.2 ∧
          (Builtin.recognize? line = none → Line.parse? line = none →
            next.1.lastStatus = reached.1.lastStatus ∧ next.1.prompt = reached.1.prompt ∧
              next.1.shouldExit = reached.1.shouldExit ∧ next.2 = reached.2) := by
  refine ⟨fun word => ⟨Status.code_ofWord_le word, Status.isSuccess_iff_code_eq_zero,
    Status.isSuccess_ofWord_iff word, ?_⟩, Machine.launcher_ends, ?_⟩
  · intro launcher left rest w hstatus hfailed
    cases rest with
    | none => rw [Segment.run]
    | some rest =>
      rw [Segment.run]
      simp only [hstatus, hfailed, Bool.false_eq_true, if_false]
  · intro host hends capacity lines w reached last?
    have hlast : reached.1.lastStatus = last?.elim 0 Ending.code :=
      dispatchAll_lastStatus host lines (start capacity) w
    refine ⟨fun hgoes => ⟨?_, hlast, ?_⟩, fun line record => ?_⟩
    · have hexit : ∀ line ∈ lines, Builtin.exitStatus? line.1 = none := by
        have hover := dispatchAll_shouldExit host lines (start capacity) w
        rw [hgoes] at hover
        simpa [start] using hover
      rw [hlast]
      cases hending : last? with
      | none => simp
      | some ending => exact code_of_mem_endings hends hexit ending (List.mem_of_getLast? hending)
    · rw [prompt, hlast]
      cases last? with
      | none => rfl
      | some ending =>
        have hfailed : ending.failed = true ↔ ending.code ≠ 0 := Ending.failed_iff
        by_cases hcode : ending.code = 0
        · simp [hcode, hfailed]
        · simp [hcode, hfailed]
    · intro next
      have hnext : next = reached.1.dispatch host line record reached.2 :=
        dispatchAll_append host lines [(line, record)] (start capacity) w
      rw [hnext]
      refine ⟨dispatch_lastStatus host line record _ _, fun hbuiltin hparse => ?_⟩
      rw [dispatch_of_nothing host hbuiltin hparse]
      cases record <;> exact ⟨rfl, rfl, rfl, rfl⟩

/-- A bench where nothing that is written is taken. -/
def full : Kernel Bench := { Kernel.bench with fault := fun _ _ _ => some (0, .noSpace) }

/-- On a bench programs exit with their numbers, from 10 on: the second stage with 11, which the prompt
still shows after a line of nothing but a bar. Where nothing printed is taken, a listing fails with 1. -/
theorem last_ending_shown_bar_only :
    let host := Machine.host .bench (commandBody .bench)
    let lines := ["a | b", " | "].map fun line => (line.toList, true)
    let reached := dispatchAll host lines (start 5) (Bench.machine 9 [])
    let unheard := dispatchAll (Machine.host full (commandBody full))
      (["a | b", "history"].map fun line => (line.toList, true)) (start 5) (Bench.machine 9 [])
    (host.toLauncher.Ends Status.Reported ∧ reached.1.shouldExit = false ∧
      (0 ≤ reached.1.lastStatus ∧ reached.1.lastStatus ≤ 255) ∧ reached.1.lastStatus = 11 ∧
      reached.1.prompt = "[11] vsh$ ".toList ∧
      Builtin.recognize? " | ".toList = none ∧ Line.parse? " | ".toList = none ∧
      (dispatchAll host (lines ++ [(" | ".toList, true)]) (start 5) (Bench.machine 9 [])).1.lastStatus =
        reached.1.lastStatus) ∧
    unheard.1.shouldExit = false ∧ unheard.1.lastStatus = 1 ∧ unheard.1.prompt = "[1] vsh$ ".toList := by
  intro host lines reached unheard
  obtain ⟨-, hchildren, hsession⟩ := @last_ending_shown Bench (Machine Bench)
  have hends : host.toLauncher.Ends Status.Reported := hchildren .bench (commandBody .bench)
  obtain ⟨hshown, hnext⟩ := hsession host hends 5 lines (Bench.machine 9 [])
  obtain ⟨hrange, hlast, hprompt⟩ := hshown rfl
  have hnothing := (hnext " | ".toList true).2 (by decide) (by decide)
  obtain ⟨hunheard, -⟩ := hsession (Machine.host full (commandBody full))
    (hchildren full (commandBody full)) 5 (["a | b", "history"].map fun line => (line.toList, true))
    (Bench.machine 9 [])
  obtain ⟨-, hlast', hprompt'⟩ := hunheard rfl
  exact ⟨⟨hends, rfl, hrange, hlast.trans rfl, hprompt.trans rfl, by decide, by decide, hnothing.1⟩, rfl,
    hlast'.trans rfl, hprompt'.trans rfl⟩

end Session

end LineShell
