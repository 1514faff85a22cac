import LineShell.Proofs.Evaluation.Flat
import LineShell.Proofs.Evaluation.Tally
import LineShell.Proofs.Session.Dispatches

/-!
# What a dispatch launches

A dispatch on a host that also writes down each launch is a dispatch on the host.

* `Host.recording`: the host that writes down the launches of its launcher.
* `Session.dispatch_projects`: what one host does in the worlds behind another's, a dispatch does there;
  so writing down changes nothing (`Session.dispatch_recording`).
* `Session.launches`: the launches of a dispatch. A built-in has none, nor has a line in which there is
  nothing to run (`Session.launches_of_builtin`, `Session.launches_of_nothing`), and any other line has
  those of its evaluation (`Session.launches_of_line`).
-/

namespace LineShell

variable {V W : Type u}

/-! ## Hosts behind hosts -/

/-- What one place for output does, another does in the worlds behind those of the first. -/
structure Writer.Projects (f : V → W) (above : Writer V) (below : Writer W) : Prop where
  write : ∀ bytes v, below.write bytes (f v) = ((above.write bytes v).1, f (above.write bytes v).2)
  flush : ∀ v, below.flush (f v) = ((above.flush v).1, f (above.flush v).2)

theorem Writer.writeAll_projects {f : V → W} {above : Writer V} {below : Writer W}
    (h : above.Projects f below) (texts : List Text) (v : V) :
    below.writeAll texts (f v) = ((above.writeAll texts v).1, f (above.writeAll texts v).2) := by
  induction texts generalizing v with
  | nil => rfl
  | cons text rest ih =>
    rw [writeAll, writeAll, h.write]
    obtain ⟨fault, v'⟩ := above.write (Utf8.encode text) v
    cases fault with
    | none => exact ih v'
    | some errno => rfl

theorem Writer.print_projects {f : V → W} {above : Writer V} {below : Writer W}
    (h : above.Projects f below) (texts : List Text) (v : V) :
    below.print texts (f v) = ((above.print texts v).1, f (above.print texts v).2) := by
  unfold print
  rw [writeAll_projects h]
  obtain ⟨fault, v'⟩ := above.writeAll texts v
  cases fault with
  | none => exact h.flush v'
  | some errno => rfl

/-- Behind the worlds of one host are those of another, which does and sees the same there. -/
structure Host.Projects (f : V → W) (above : Host V) (below : Host W) : Prop
    extends above.toLauncher.Projects f below.toLauncher where
  interrupted : ∀ v, below.interrupted (f v) = above.interrupted v
  setInterrupted : ∀ interrupted v,
    below.setInterrupted interrupted (f v) = f (above.setInterrupted interrupted v)
  output : above.output.Projects f below.output
  print : ∀ bytes v, below.print bytes (f v) = f (above.print bytes v)
  complain : ∀ message v, below.complain message (f v) = f (above.complain message v)

/-- A built-in does in the worlds behind what it does before. -/
theorem Builtin.perform_projects {f : V → W} {above : Writer V} {below : Writer W}
    (h : above.Projects f below) (builtin : Builtin) (s : Session) (v : V) :
    builtin.perform below s (f v) =
      let result := builtin.perform above s v
      ⟨result.status, result.complaint, result.session, f result.out⟩ := by
  have hlisted (count : Option Nat) : listed below count s (f v) =
      let result := listed above count s v
      ⟨result.status, result.complaint, result.session, f result.out⟩ := by
    rw [listed_eq, listed_eq, Writer.print_projects h]
  cases builtin with
  | exit argument =>
    cases argument with
    | none => rfl
    | some text => cases hnumber : Text.int32? text <;> simp [perform, hnumber]
  | history argument =>
    cases argument with
    | none => exact hlisted none
    | some text =>
      cases hnumber : Text.count? text with
      | none => simp only [perform, hnumber]
      | some count =>
        simp only [perform, hnumber]
        exact hlisted (some count)

namespace Session

section

variable {f : V → W} {above : Host V} {below : Host W}

theorem runBuiltin_projects (h : above.Projects f below) (builtin : Builtin) (s : Session) (v : V) :
    runBuiltin below builtin s (f v) =
      ((runBuiltin above builtin s v).1, f (runBuiltin above builtin s v).2) := by
  unfold runBuiltin
  rw [Builtin.perform_projects h.output]
  simp only
  cases (builtin.perform above.output s v).complaint with
  | none => rfl
  | some message => simp only [Option.elim_some, h.complain]

theorem runLine_projects (h : above.Projects f below) (line : Line) (s : Session) (v : V) :
    runLine below line s (f v) = ((runLine above line s v).1, f (runLine above line s v).2) := by
  have hline := Line.run_projects h.toProjects line v
  unfold runLine Host.takeInterrupt
  simp only [hline, h.interrupted, h.setInterrupted, h.print]
  split <;> rfl

/-- **What one host does behind another, a dispatch does behind it.** -/
theorem dispatch_projects (h : above.Projects f below) (line : Text) (record : Bool) (s : Session)
    (v : V) :
    s.dispatch below line record (f v) =
      ((s.dispatch above line record v).1, f (s.dispatch above line record v).2) := by
  unfold dispatch
  cases Builtin.recognize? line with
  | some builtin => exact runBuiltin_projects h builtin s v
  | none =>
    simp only
    cases Line.parse? line with
    | none => rfl
    | some parsed => exact runLine_projects h parsed _ v

end

end Session

/-! ## Launches -/

/-- The host that also writes down each launch. -/
def Host.recording (host : Host W) : Host (W × List (Launch W)) where
  toLauncher := host.toLauncher.recording
  interrupted w := host.interrupted w.1
  setInterrupted interrupted w := (host.setInterrupted interrupted w.1, w.2)
  output :=
    { write := fun bytes w =>
        let (fault, world) := host.output.write bytes w.1
        (fault, world, w.2)
      flush := fun w =>
        let (fault, world) := host.output.flush w.1
        (fault, world, w.2) }
  print bytes w := (host.print bytes w.1, w.2)
  complain message w := (host.complain message w.1, w.2)

theorem Host.recording_projects (host : Host W) : host.recording.Projects Prod.fst host where
  command _ _ := rfl
  pipeline _ _ := rfl
  interrupted _ := rfl
  setInterrupted _ _ := rfl
  output := { write := fun _ _ => rfl, flush := fun _ => rfl }
  print _ _ := rfl
  complain _ _ := rfl

/-- The launches of a line, in order. -/
def Line.launches (launcher : Launcher W) (line : Line) (w : W) : List (Launch W) :=
  (line.run launcher.recording (w, [])).2.2

namespace Session

/-- Writing down the launches changes nothing of a dispatch. -/
theorem dispatch_recording (host : Host W) (line : Text) (record : Bool) (s : Session) (w : W) :
    s.dispatch host line record w =
      ((s.dispatch host.recording line record (w, [])).1,
        (s.dispatch host.recording line record (w, [])).2.1) :=
  dispatch_projects host.recording_projects line record s (w, [])

/-- The launches of a dispatch, in order. -/
def launches (host : Host W) (line : Text) (record : Bool) (s : Session) (w : W) : List (Launch W) :=
  (s.dispatch host.recording line record (w, [])).2.2

theorem launches_of_builtin (host : Host W) {line : Text} {builtin : Builtin}
    (h : Builtin.recognize? line = some builtin) (record : Bool) (s : Session) (w : W) :
    s.launches host line record w = [] := by
  have houtput : host.recording.output.Preserves fun x => x.2 = [] :=
    { write := fun _ _ hx => hx, flush := fun _ hx => hx }
  have hperformed : (builtin.perform host.recording.output s (w, [])).out.2 = [] :=
    builtin.perform_preserves houtput s rfl
  rw [launches, dispatch_of_builtin host.recording h, runBuiltin]
  simp only
  cases (builtin.perform host.recording.output s (w, [])).complaint <;> exact hperformed

theorem launches_of_nothing (host : Host W) {line : Text} (h : Builtin.recognize? line = none)
    (hparse : Line.parse? line = none) (record : Bool) (s : Session) (w : W) :
    s.launches host line record w = [] := by
  rw [launches, dispatch_of_nothing host.recording h hparse]

theorem launches_of_line (host : Host W) {line : Text} {parsed : Line}
    (h : Builtin.recognize? line = none) (hparse : Line.parse? line = some parsed) (record : Bool)
    (s : Session) (w : W) :
    s.launches host line record w = parsed.launches host.toLauncher w := by
  rw [launches, dispatch_of_line host.recording h hparse]
  unfold runLine Host.takeInterrupt
  simp only
  split <;> rfl

end Session

end LineShell
