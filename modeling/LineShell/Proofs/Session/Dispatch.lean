import LineShell.Session.Dispatch

/-!
# What a dispatch does to the session

A built-in acts on the session alone; any other line acts on it by being recorded and by its status.

* `Builtin.perform_session`: only `exit` changes the session, and only in that it is over then.
* `Builtin.count?`: how many entries a built-in is to list; only that goes to the output
  (`Builtin.perform_of_count`, `Builtin.perform_of_no_count`).
* `Builtin.exitStatus`: the status of `exit`.
* `Session.dispatch_of_builtin`, `Session.dispatch_of_nothing`, `Session.dispatch_of_line`: the three ways
  of a line.
* `Session.dispatch_shouldExit`: a session is over after a line that is an `exit`, and stays so.
-/

namespace LineShell

variable {W : Type u}

namespace Builtin

section

variable (out : Writer W)

/-- Listing entries succeeds exactly if the output takes them all. -/
theorem listed_eq (count : Option Nat) (s : Session) (w : W) :
    listed out count s w =
      let printed := out.print (s.history.listing count) w
      ⟨if printed.1.isSome then 1 else 0,
        printed.1.map fun errno => "history: ".toList ++ errno.describe, s, printed.2⟩ := by
  unfold listed
  obtain ⟨fault, w'⟩ := out.print (s.history.listing count) w
  cases fault <;> rfl

/-- Of the built-ins only `exit` changes the session, and it only ends it. -/
theorem perform_session (builtin : Builtin) (s : Session) (w : W) :
    (builtin.perform out s w).session =
      match builtin with
      | .exit _ => { s with shouldExit := true }
      | .history _ => s := by
  cases builtin with
  | exit argument =>
    cases argument with
    | none => rfl
    | some text =>
      cases hnumber : Text.int32? text <;> simp [perform, hnumber]
  | history argument =>
    cases argument with
    | none => exact congrArg Result.session (listed_eq out none s w)
    | some text =>
      cases hnumber : Text.count? text with
      | none => simp only [perform, hnumber]
      | some count =>
        simp only [perform, hnumber]
        exact congrArg Result.session (listed_eq out (some count) s w)

/-- How many entries a built-in is to list, if it is to list any. -/
def count? : Builtin → Option (Option Nat)
  | .exit _ => none
  | .history none => some none
  | .history (some text) => (Text.count? text).map some

/-- A built-in that is to list entries does that, -/
theorem perform_of_count {builtin : Builtin} {count : Option Nat} (h : builtin.count? = some count)
    (s : Session) (w : W) : builtin.perform out s w = listed out count s w := by
  cases builtin with
  | exit argument => exact absurd h (by simp [count?])
  | history argument =>
    cases argument with
    | none =>
      obtain rfl := Option.some.inj h
      rfl
    | some text =>
      obtain ⟨number, hnumber, rfl⟩ := Option.map_eq_some_iff.mp h
      simp only [perform, hnumber]

/-- and any other leaves the output alone. -/
theorem perform_of_no_count {builtin : Builtin} (h : builtin.count? = none) (s : Session) (w : W) :
    (builtin.perform out s w).out = w := by
  cases builtin with
  | exit argument =>
    cases argument with
    | none => rfl
    | some text =>
      cases hnumber : Text.int32? text <;> simp [perform, hnumber]
  | history argument =>
    cases argument with
    | none => exact absurd h (by simp [count?])
    | some text => simp only [perform, Option.map_eq_none_iff.mp h]

end

/-- The status of `exit`: its argument, 0 without one, and 2 for one that is no 32-bit number. -/
def exitStatus : Option Text → Int
  | none => 0
  | some text => (Text.int32? text).getD 2

theorem perform_exit_status (out : Writer W) (argument : Option Text) (s : Session) (w : W) :
    ((Builtin.exit argument).perform out s w).status = exitStatus argument := by
  cases argument with
  | none => rfl
  | some text => cases hnumber : Text.int32? text <;> simp [perform, exitStatus, hnumber]

/-- The status that a line ends the session with, if it is an `exit`. -/
def exitStatus? (line : Text) : Option Int :=
  match recognize? line with
  | some (.exit argument) => some (exitStatus argument)
  | _ => none

end Builtin

namespace Session

/-! ## The three ways of a line -/

theorem dispatch_of_builtin (host : Host W) {line : Text} {builtin : Builtin}
    (h : Builtin.recognize? line = some builtin) (record : Bool) (s : Session) (w : W) :
    s.dispatch host line record w = runBuiltin host builtin s w := by
  simp only [dispatch, h]

/-- The session with a line given to the history, where that is asked for. -/
def noting (s : Session) (line : Text) (record : Bool) : Session :=
  if record then { s with history := s.history.push line } else s

@[simp] theorem noting_history (s : Session) (line : Text) (record : Bool) :
    (s.noting line record).history = if record then s.history.push line else s.history := by
  cases record <;> rfl

@[simp] theorem noting_shouldExit (s : Session) (line : Text) (record : Bool) :
    (s.noting line record).shouldExit = s.shouldExit := by
  cases record <;> rfl

theorem dispatch_of_nothing (host : Host W) {line : Text} (h : Builtin.recognize? line = none)
    (hparse : Line.parse? line = none) (record : Bool) (s : Session) (w : W) :
    s.dispatch host line record w = (s.noting line record, w) := by
  simp only [dispatch, h, hparse, noting]

theorem dispatch_of_line (host : Host W) {line : Text} {parsed : Line}
    (h : Builtin.recognize? line = none) (hparse : Line.parse? line = some parsed) (record : Bool)
    (s : Session) (w : W) :
    s.dispatch host line record w = runLine host parsed (s.noting line record) w := by
  simp only [dispatch, h, hparse, noting]

/-- Running a built-in leaves the session as the built-in does, but for the status. -/
theorem runBuiltin_fst (host : Host W) (builtin : Builtin) (s : Session) (w : W) :
    (runBuiltin host builtin s w).1 =
      { (builtin.perform host.output s w).session with
        lastStatus := (builtin.perform host.output s w).status } :=
  rfl

/-- Of the session, running a line sets the status only. -/
theorem runLine_fst (host : Host W) (line : Line) (s : Session) (w : W) :
    (runLine host line s w).1 = { s with lastStatus := (line.run host.toLauncher w).1.code } :=
  rfl

/-! ## The history and the end of the session -/

/-- A dispatch changes the history only by giving it the line, if that is no built-in and may be
recorded. -/
theorem dispatch_history (host : Host W) (line : Text) (record : Bool) (s : Session) (w : W) :
    (s.dispatch host line record w).1.history =
      if record = true ∧ Builtin.recognize? line = none then s.history.push line else s.history := by
  cases hbuiltin : Builtin.recognize? line with
  | some builtin =>
    rw [dispatch_of_builtin host hbuiltin, runBuiltin_fst, Builtin.perform_session]
    cases builtin <;> simp
  | none =>
    cases hparse : Line.parse? line with
    | none => simp only [dispatch_of_nothing host hbuiltin hparse, noting_history, and_true]
    | some parsed =>
      simp only [dispatch_of_line host hbuiltin hparse, runLine_fst, noting_history, and_true]

/-- A dispatch ends the session exactly when its line is an `exit`. -/
theorem dispatch_shouldExit (host : Host W) (line : Text) (record : Bool) (s : Session) (w : W) :
    (s.dispatch host line record w).1.shouldExit =
      (s.shouldExit || (Builtin.exitStatus? line).isSome) := by
  unfold Builtin.exitStatus?
  cases hbuiltin : Builtin.recognize? line with
  | some builtin =>
    rw [dispatch_of_builtin host hbuiltin, runBuiltin_fst, Builtin.perform_session]
    cases builtin <;> simp
  | none =>
    cases hparse : Line.parse? line with
    | none => simp [dispatch_of_nothing host hbuiltin hparse]
    | some parsed => simp [dispatch_of_line host hbuiltin hparse, runLine_fst]

/-- The status of an `exit` is the last status of the session. -/
theorem dispatch_lastStatus_of_exit (host : Host W) {line : Text} {status : Int}
    (h : Builtin.exitStatus? line = some status) (record : Bool) (s : Session) (w : W) :
    (s.dispatch host line record w).1.lastStatus = status := by
  unfold Builtin.exitStatus? at h
  split at h
  · rename_i argument hexit
    rw [dispatch_of_builtin host hexit, runBuiltin_fst, Builtin.perform_exit_status]
    exact Option.some.inj h
  · exact absurd h (by simp)

end Session

end LineShell
