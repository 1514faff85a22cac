import LineShell.Proofs.Evaluation.Preserve
import LineShell.Proofs.Session.Dispatch

/-!
# Sequences of dispatches

`Session.dispatchAll` dispatches lines one after another, each with its own answer to whether it may be
recorded, and goes on after an `exit` as well. What the operations of a host preserve is preserved by
every such sequence (`dispatchAll_preserves`).
-/

namespace LineShell

variable {W : Type u}

/-! ## Writing -/

/-- Writing preserves a predicate on worlds, whether or not it fails. -/
structure Writer.Preserves (out : Writer W) (P : W → Prop) : Prop where
  write : ∀ bytes w, P w → P (out.write bytes w).2
  flush : ∀ w, P w → P (out.flush w).2

theorem Writer.writeAll_preserves {out : Writer W} {P : W → Prop} (h : out.Preserves P)
    (texts : List Text) {w : W} (hw : P w) : P (out.writeAll texts w).2 := by
  induction texts generalizing w with
  | nil => exact hw
  | cons text rest ih =>
    have hwritten := h.write (Utf8.encode text) w hw
    rw [writeAll]
    split
    · rename_i hnext
      rw [hnext] at hwritten
      exact ih hwritten
    · exact hwritten

theorem Writer.print_preserves {out : Writer W} {P : W → Prop} (h : out.Preserves P)
    (texts : List Text) {w : W} (hw : P w) : P (out.print texts w).2 := by
  have hwritten := writeAll_preserves h texts hw
  unfold print
  split
  · rename_i hnext
    rw [hnext] at hwritten
    exact h.flush _ hwritten
  · exact hwritten

/-- A built-in preserves what its output does. -/
theorem Builtin.perform_preserves {out : Writer W} {P : W → Prop} (h : out.Preserves P)
    (builtin : Builtin) (s : Session) {w : W} (hw : P w) : P (builtin.perform out s w).out := by
  cases hcount : builtin.count? with
  | none =>
    rw [perform_of_no_count out hcount]
    exact hw
  | some count =>
    rw [perform_of_count out hcount, listed_eq]
    exact Writer.print_preserves h _ hw

/-! ## Hosts -/

/-- What a host does preserves a predicate on worlds. -/
structure Host.Preserves (host : Host W) (P : W → Prop) : Prop extends
    host.toLauncher.Preserves P where
  setInterrupted : ∀ interrupted w, P w → P (host.setInterrupted interrupted w)
  output : host.output.Preserves P
  print : ∀ bytes w, P w → P (host.print bytes w)
  complain : ∀ message w, P w → P (host.complain message w)

namespace Session

/-- Dispatches lines one after another; with each goes whether it may be recorded. -/
def dispatchAll (host : Host W) : List (Text × Bool) → Session → W → Session × W
  | [], s, w => (s, w)
  | (line, record) :: rest, s, w =>
    let ran := s.dispatch host line record w
    dispatchAll host rest ran.1 ran.2

/-- Dispatching more lines goes on from where the others led. -/
theorem dispatchAll_append (host : Host W) (lines more : List (Text × Bool)) (s : Session) (w : W) :
    dispatchAll host (lines ++ more) s w =
      dispatchAll host more (dispatchAll host lines s w).1 (dispatchAll host lines s w).2 := by
  induction lines generalizing s w with
  | nil => rfl
  | cons line rest ih => exact ih _ _

section

variable {host : Host W} {P : W → Prop}

theorem runBuiltin_preserves (h : host.Preserves P) (builtin : Builtin) (s : Session) {w : W}
    (hw : P w) : P (runBuiltin host builtin s w).2 := by
  have hperformed := builtin.perform_preserves h.output s hw
  unfold runBuiltin
  simp only
  cases (builtin.perform host.output s w).complaint with
  | none => exact hperformed
  | some message => exact h.complain message _ hperformed

theorem runLine_preserves (h : host.Preserves P) (line : Line) (s : Session) {w : W} (hw : P w) :
    P (runLine host line s w).2 := by
  have hran := h.setInterrupted false _ (Line.run_preserves h.toPreserves line hw)
  unfold runLine Host.takeInterrupt
  simp only
  split
  · exact h.print _ _ hran
  · exact hran

theorem dispatch_preserves (h : host.Preserves P) (line : Text) (record : Bool) (s : Session) {w : W}
    (hw : P w) : P (s.dispatch host line record w).2 := by
  unfold dispatch
  split
  · exact runBuiltin_preserves h _ s hw
  · simp only
    split
    · exact hw
    · exact runLine_preserves h _ _ hw

/-- **A sequence of dispatches preserves what the operations of the host preserve.** -/
theorem dispatchAll_preserves (h : host.Preserves P) (lines : List (Text × Bool)) (s : Session) {w : W}
    (hw : P w) : P (dispatchAll host lines s w).2 := by
  induction lines generalizing s w with
  | nil => exact hw
  | cons line rest ih => exact ih _ (dispatch_preserves h line.1 line.2 s hw)

end

end Session

end LineShell
