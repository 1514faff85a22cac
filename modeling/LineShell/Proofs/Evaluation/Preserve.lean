import LineShell.Evaluation

/-!
# Invariants of evaluation

Evaluation itself does nothing to the world and makes no status but success: what holds of the launches
holds of the line.

* `Launcher.Relates`: two launchers do the same in worlds that belong together. So do the lines
  (`Line.run_related`).
* `Launcher.Preserves`: a launcher preserves a predicate on worlds, launch by launch. So does every line
  (`Line.run_preserves`).
-/

namespace LineShell

variable {V : Type u} {W : Type v}

/-! ## Relations -/

/-- Two runs end with one status, which is of a kind, and in worlds that belong together. -/
structure RunRelated (R : V → W → Prop) (Q : Status → Prop) (above : Status × V) (below : Status × W) :
    Prop where
  status : below.1 = above.1
  kind : Q above.1
  world : R above.2 below.2

/-- From worlds that belong together the launches of two launchers are related. -/
structure Launcher.Relates (R : V → W → Prop) (Q : Status → Prop) (above : Launcher V)
    (below : Launcher W) : Prop where
  command : ∀ command v w, R v w → RunRelated R Q (above.command command v) (below.command command w)
  pipeline : ∀ stages v w, R v w → RunRelated R Q (above.pipeline stages v) (below.pipeline stages w)

section

variable {R : V → W → Prop} {Q : Status → Prop} {above : Launcher V} {below : Launcher W}

mutual

theorem Segment.run_related (h : above.Relates R Q below) (hsuccess : Q .success) :
    ∀ (segment : Segment) (v : V) (w : W), R v w →
      RunRelated R Q (segment.run above v) (segment.run below w)
  | .simple command, v, w, hworld => by
    rw [Segment.run, Segment.run]
    exact h.command command v w hworld
  | .conditional none _, v, w, hworld => by
    rw [Segment.run, Segment.run]
    exact ⟨rfl, hsuccess, hworld⟩
  | .conditional (some left) none, v, w, hworld => by
    rw [Segment.run, Segment.run]
    exact h.command left v w hworld
  | .conditional (some left) (some rest), v, w, hworld => by
    have hleft := h.command left v w hworld
    rw [Segment.run, Segment.run]
    simp only [hleft.status]
    split
    · exact Segment.runAll_related h hsuccess rest _ hsuccess _ _ hleft.world
    · exact hleft

theorem Segment.runAll_related (h : above.Relates R Q below) (hsuccess : Q .success) :
    ∀ (segments : List Segment) (status : Status), Q status → ∀ (v : V) (w : W), R v w →
      RunRelated R Q (Segment.runAll above segments status v) (Segment.runAll below segments status w)
  | [], status, hstatus, v, w, hworld => by
    rw [Segment.runAll, Segment.runAll]
    exact ⟨rfl, hstatus, hworld⟩
  | segment :: rest, status, _, v, w, hworld => by
    have hsegment := Segment.run_related h hsuccess segment v w hworld
    rw [Segment.runAll, Segment.runAll]
    simp only [hsegment.status]
    exact Segment.runAll_related h hsuccess rest _ hsegment.kind _ _ hsegment.world

end

/-- **What relates launches relates lines.** -/
theorem Line.run_related (h : above.Relates R Q below) (hsuccess : Q .success) (line : Line) {v : V}
    {w : W} (hworld : R v w) : RunRelated R Q (line.run above v) (line.run below w) := by
  cases line with
  | pipeline stages => exact h.pipeline stages v w hworld
  | sequence segments => exact Segment.runAll_related h hsuccess segments .success hsuccess v w hworld

end

/-! ## Predicates -/

/-- What a launcher does preserves a predicate on worlds. -/
structure Launcher.Preserves (launcher : Launcher W) (P : W → Prop) : Prop where
  command : ∀ command w, P w → P (launcher.command command w).2
  pipeline : ∀ stages w, P w → P (launcher.pipeline stages w).2

/-- **Running a line preserves what its launches preserve.** -/
theorem Line.run_preserves {launcher : Launcher W} {P : W → Prop} (h : launcher.Preserves P)
    (line : Line) {w : W} (hw : P w) : P (line.run launcher w).2 := by
  have hrelates : launcher.Relates (fun v w => v = w ∧ P v) (fun _ => True) launcher := {
    command := fun command v w hworld => by
      obtain ⟨rfl, hv⟩ := hworld
      exact ⟨rfl, trivial, rfl, h.command command v hv⟩
    pipeline := fun stages v w hworld => by
      obtain ⟨rfl, hv⟩ := hworld
      exact ⟨rfl, trivial, rfl, h.pipeline stages v hv⟩ }
  exact (Line.run_related hrelates trivial line ⟨rfl, hw⟩).world.2

end LineShell
