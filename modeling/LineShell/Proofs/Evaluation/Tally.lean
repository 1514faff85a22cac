import LineShell.Proofs.Evaluation.Preserve
import LineShell.Text.Basic

/-!
# What the launches of a line take of an input

An input is seen through a function that tells what of it is unread in a world. A launch takes the
beginning of what was unread that is not unread any more.

* `Launcher.Projects`: one launcher does in its worlds what another does in the worlds behind them; so
  does every line (`Line.run_projects`).
* `Launcher.tallying`: the launcher that also writes down what each launch takes.
* `Line.takings`: what the launches of a line take, in order. Put one after another and followed by what
  is unread in the end they are what was unread before (`Line.unread_eq_takings`).
-/

namespace LineShell

variable {V W : Type u}

/-! ## Projections -/

/-- Behind the worlds of one launcher are those of another, which does the same there. -/
structure Launcher.Projects (f : V → W) (above : Launcher V) (below : Launcher W) : Prop where
  command : ∀ command v,
    below.command command (f v) = ((above.command command v).1, f (above.command command v).2)
  pipeline : ∀ stages v,
    below.pipeline stages (f v) = ((above.pipeline stages v).1, f (above.pipeline stages v).2)

/-- **What one launcher does behind another, a line does behind it.** -/
theorem Line.run_projects {f : V → W} {above : Launcher V} {below : Launcher W}
    (h : above.Projects f below) (line : Line) (v : V) :
    line.run below (f v) = ((line.run above v).1, f (line.run above v).2) := by
  have hrelates : above.Relates (fun v w => f v = w) (fun _ => True) below := {
    command := fun command v w hworld => by
      subst hworld
      have hcommand := h.command command v
      exact ⟨congrArg Prod.fst hcommand, trivial, (congrArg Prod.snd hcommand).symm⟩
    pipeline := fun stages v w hworld => by
      subst hworld
      have hpipeline := h.pipeline stages v
      exact ⟨congrArg Prod.fst hpipeline, trivial, (congrArg Prod.snd hpipeline).symm⟩ }
  have hline := Line.run_related hrelates trivial line (rfl : f v = f v)
  exact Prod.ext hline.status hline.world.symm

/-! ## Takings -/

/-- What is taken of an input of which less is unread than before. -/
def taken (unread unreadAfter : Bytes) : Bytes :=
  unread.take (unread.length - unreadAfter.length)

theorem taken_append (front unreadAfter : Bytes) : taken (front ++ unreadAfter) unreadAfter = front := by
  simp [taken]

theorem taken_of_suffix {unread unreadAfter : Bytes} (h : unreadAfter <:+ unread) :
    taken unread unreadAfter ++ unreadAfter = unread := by
  obtain ⟨front, rfl⟩ := h
  rw [taken_append]

/-- The launcher that also writes down what each launch takes of an input. -/
def Launcher.tallying (launcher : Launcher W) (unread : W → Bytes) : Launcher (W × List Bytes) where
  command command w :=
    let ran := launcher.command command w.1
    (ran.1, ran.2, w.2 ++ [taken (unread w.1) (unread ran.2)])
  pipeline stages w :=
    let ran := launcher.pipeline stages w.1
    (ran.1, ran.2, w.2 ++ [taken (unread w.1) (unread ran.2)])

theorem Launcher.tallying_projects (launcher : Launcher W) (unread : W → Bytes) :
    (launcher.tallying unread).Projects Prod.fst launcher :=
  ⟨fun _ _ => rfl, fun _ _ => rfl⟩

/-- What the launches of a line take of an input, in order. -/
def Line.takings (launcher : Launcher W) (unread : W → Bytes) (line : Line) (w : W) : List Bytes :=
  (line.run (launcher.tallying unread) (w, [])).2.2

/-- In the worlds of a kind, launches read on from where others stopped, as far as they like. -/
structure Launcher.ReadsOn (launcher : Launcher W) (sound : W → Prop) (unread : W → Bytes) : Prop
    extends launcher.Preserves sound where
  command_unread : ∀ command w, sound w → unread (launcher.command command w).2 <:+ unread w
  pipeline_unread : ∀ stages w, sound w → unread (launcher.pipeline stages w).2 <:+ unread w

section

variable {launcher : Launcher W} {sound : W → Prop} {unread : W → Bytes}

/-- What was taken so far, followed by what is unread, stays the same launch by launch. -/
theorem Launcher.tallying_preserves (h : launcher.ReadsOn sound unread) (input : Bytes) :
    (launcher.tallying unread).Preserves fun w =>
      sound w.1 ∧ w.2.flatten ++ unread w.1 = input where
  command command w hw := by
    refine ⟨h.command command w.1 hw.1, ?_⟩
    simp only [tallying, List.flatten_append, List.flatten_singleton, List.append_assoc]
    rw [taken_of_suffix (h.command_unread command w.1 hw.1), hw.2]
  pipeline stages w hw := by
    refine ⟨h.pipeline stages w.1 hw.1, ?_⟩
    simp only [tallying, List.flatten_append, List.flatten_singleton, List.append_assoc]
    rw [taken_of_suffix (h.pipeline_unread stages w.1 hw.1), hw.2]

/-- **Running a line takes exactly what its launches take.** -/
theorem Line.unread_eq_takings (h : launcher.ReadsOn sound unread) (line : Line) {w : W}
    (hw : sound w) :
    unread w = (line.takings launcher unread w).flatten ++ unread (line.run launcher w).2 := by
  have hworld := Line.run_projects (launcher.tallying_projects unread) line (w, [])
  have htallied :=
    Line.run_preserves (w := (w, [])) (Launcher.tallying_preserves h (unread w)) line ⟨hw, rfl⟩
  rw [hworld]
  exact htallied.2.symm

end

end LineShell
