import LineShell.Proofs.Evaluation.Preserve
import LineShell.Proofs.Session.Dispatches

/-!
# Interrupts between and during dispatches

An interrupt sets a flag. It may arrive while a host operates, between two of its operations, and
between two lines. How many have arrived is counted beside the host's worlds.

* `Host.Hears`: the flag is set by every interrupt that arrives, and cleared by the host's asking only.
* `Host.watched`: a host that is sent interrupts while it operates, by a schedule of any kind, and of
  which it is written down what it launches and prints. It hears what the host hears, and what it is
  sent (`Host.Hears.watched`).
* `Turn`: where a session stands after some lines and interrupts. The flag is set exactly if an
  interrupt has arrived since it was last asked about (`Turn.Fair`), and every line and every interrupt
  keeps it so (`Turn.Fair.meetAll`).
* `Turn.Fair.reports`: so what a dispatch reports is an interrupt since then, or the death of its line
  by one.
-/

namespace LineShell

variable {W : Type u}

/-! ## Hearing -/

/-- On the way from one world to a later one every interrupt has set the flag, and nothing has cleared
it. -/
structure Host.Heard (host : Host W) (arrived : W → Nat) (w w' : W) : Prop where
  later : arrived w ≤ arrived w'
  flag : host.interrupted w' = true ↔ host.interrupted w = true ∨ arrived w < arrived w'

theorem Host.Heard.refl (host : Host W) (arrived : W → Nat) (w : W) : host.Heard arrived w w where
  later := Nat.le_refl _
  flag := by simp

theorem Host.Heard.trans {host : Host W} {arrived : W → Nat} {w w' w'' : W}
    (h : host.Heard arrived w w') (h' : host.Heard arrived w' w'') : host.Heard arrived w w'' where
  later := Nat.le_trans h.later h'.later
  flag := by
    have hfirst := h.later
    have hsecond := h'.later
    rw [h'.flag, h.flag, or_assoc]
    refine or_congr_right ⟨fun harrived => ?_, fun harrived => ?_⟩
    · omega
    · omega

/-- In worlds of a kind, the flag is set by every interrupt that arrives while bytes are written, and
cleared by none. -/
structure Host.OutputHears (host : Host W) (arrived : W → Nat) (P : W → Prop) : Prop where
  write : ∀ bytes w, P w →
    P (host.output.write bytes w).2 ∧ host.Heard arrived w (host.output.write bytes w).2
  flush : ∀ w, P w → P (host.output.flush w).2 ∧ host.Heard arrived w (host.output.flush w).2

/-- In worlds of a kind, the flag is set by every interrupt that arrives while the host operates, and
cleared by nothing but asking. -/
structure Host.Hears (host : Host W) (arrived : W → Nat) (P : W → Prop) : Prop where
  command : ∀ command w, P w →
    P (host.command command w).2 ∧ host.Heard arrived w (host.command command w).2
  pipeline : ∀ stages w, P w →
    P (host.pipeline stages w).2 ∧ host.Heard arrived w (host.pipeline stages w).2
  output : host.OutputHears arrived P
  print : ∀ bytes w, P w → P (host.print bytes w) ∧ host.Heard arrived w (host.print bytes w)
  complain : ∀ message w, P w →
    P (host.complain message w) ∧ host.Heard arrived w (host.complain message w)
  setInterrupted : ∀ flag w, P w → P (host.setInterrupted flag w) ∧
    arrived (host.setInterrupted flag w) = arrived w ∧
    host.interrupted (host.setInterrupted flag w) = flag

/-! ## Watching a host -/

/-- What a host does for a session, of what can be told from outside. -/
inductive Deed where
  /-- It ran a command, or the stages of a pipeline, to their end. -/
  | launched
  /-- It gave bytes of a built-in to standard output. -/
  | wrote (bytes : Bytes)
  /-- It printed what the session has to say. -/
  | printed (bytes : Bytes)
  deriving DecidableEq, Repr

/-- A world that is sent interrupts, with what was done in it. -/
structure Watched (W : Type u) where
  world : W
  /-- How many interrupts are sent during each of the operations to come. -/
  schedule : List Nat
  /-- How many have been sent. -/
  sent : Nat
  /-- What was done so far, in order. -/
  deeds : List Deed

namespace Watched

/-- An interrupt is sent. -/
def interrupt (host : Host W) (x : Watched W) : Watched W :=
  { x with world := host.setInterrupted true x.world, sent := x.sent + 1 }

/-- An operation has led to a world; the interrupts scheduled for it are sent. -/
def after (host : Host W) (x : Watched W) (deeds : List Deed) (world : W) : Watched W where
  world := if x.schedule.headD 0 = 0 then world else host.setInterrupted true world
  schedule := x.schedule.tail
  sent := x.sent + x.schedule.headD 0
  deeds := x.deeds ++ deeds

/-- How many interrupts have arrived: those that were sent, and those that came from within. -/
def arrived (arrived : W → Nat) (x : Watched W) : Nat := x.sent + arrived x.world

end Watched

/-- The host that is sent interrupts while it operates, and whose deeds are written down. None is sent
between asking about the flag and clearing it, which are one step. -/
def Host.watched (host : Host W) : Host (Watched W) where
  command command x :=
    let ran := host.command command x.world
    (ran.1, x.after host [.launched] ran.2)
  pipeline stages x :=
    let ran := host.pipeline stages x.world
    (ran.1, x.after host [.launched] ran.2)
  interrupted x := host.interrupted x.world
  setInterrupted flag x := { x with world := host.setInterrupted flag x.world }
  output :=
    { write := fun bytes x =>
        let wrote := host.output.write bytes x.world
        (wrote.1, x.after host [.wrote bytes] wrote.2)
      flush := fun x =>
        let flushed := host.output.flush x.world
        (flushed.1, x.after host [] flushed.2) }
  print bytes x := x.after host [.printed bytes] (host.print bytes x.world)
  complain message x := x.after host [] (host.complain message x.world)

section

variable {host : Host W} {arrived : W → Nat} {P : W → Prop}

/-- What is sent during an operation is heard as well. -/
theorem Host.Hears.after (h : host.Hears arrived P) (x : Watched W) (deeds : List Deed) {world : W}
    (hworld : P world ∧ host.Heard arrived x.world world) :
    P (x.after host deeds world).world ∧
      host.watched.Heard (Watched.arrived arrived) x (x.after host deeds world) := by
  obtain ⟨hP, hheard⟩ := hworld
  have hlater := hheard.later
  by_cases hnone : x.schedule.headD 0 = 0
  · have hsame : (x.after host deeds world).world = world := if_pos hnone
    have hcount : Watched.arrived arrived (x.after host deeds world) = x.sent + arrived world := by
      unfold Watched.arrived
      rw [hsame]
      simp only [Watched.after, hnone, Nat.add_zero]
    refine ⟨by rwa [hsame], ?_, ?_⟩
    · rw [hcount]
      exact Nat.add_le_add_left hlater _
    · change host.interrupted (x.after host deeds world).world = true ↔ _
      rw [hsame, hcount, hheard.flag]
      exact or_congr_right (Nat.add_lt_add_iff_left).symm
  · obtain ⟨hPset, hkept, hset⟩ := h.setInterrupted true world hP
    have hset' : (x.after host deeds world).world = host.setInterrupted true world := if_neg hnone
    have hcount : Watched.arrived arrived (x.after host deeds world) =
        x.sent + x.schedule.headD 0 + arrived world := by
      unfold Watched.arrived
      rw [hset', hkept]
      rfl
    have hmore : Watched.arrived arrived x < Watched.arrived arrived (x.after host deeds world) := by
      rw [hcount]
      unfold Watched.arrived
      omega
    refine ⟨by rwa [hset'], Nat.le_of_lt hmore, ?_⟩
    change host.interrupted (x.after host deeds world).world = true ↔ _
    rw [hset', hset]
    exact ⟨fun _ => .inr hmore, fun _ => rfl⟩

/-- **A watched host hears what the host hears, and what it is sent.** -/
theorem Host.Hears.watched (h : host.Hears arrived P) :
    host.watched.Hears (Watched.arrived arrived) fun x => P x.world where
  command command x hx := h.after x _ (h.command command x.world hx)
  pipeline stages x hx := h.after x _ (h.pipeline stages x.world hx)
  output :=
    { write := fun bytes x hx => h.after x _ (h.output.write bytes x.world hx)
      flush := fun x hx => h.after x _ (h.output.flush x.world hx) }
  print bytes x hx := h.after x _ (h.print bytes x.world hx)
  complain message x hx := h.after x _ (h.complain message x.world hx)
  setInterrupted flag x hx := by
    obtain ⟨hP, hkept, hset⟩ := h.setInterrupted flag x.world hx
    exact ⟨hP, congrArg (x.sent + ·) hkept, hset⟩

/-- An interrupt between two operations is heard. -/
theorem Watched.interrupt_heard (h : host.Hears arrived P) {x : Watched W} (hx : P x.world) :
    P (x.interrupt host).world ∧
      host.watched.Heard (Watched.arrived arrived) x (x.interrupt host) := by
  obtain ⟨hP, hkept, hset⟩ := h.setInterrupted true x.world hx
  have hmore : Watched.arrived arrived x < Watched.arrived arrived (x.interrupt host) := by
    unfold Watched.arrived Watched.interrupt
    simp only [hkept]
    omega
  exact ⟨hP, Nat.le_of_lt hmore, ⟨fun _ => .inr hmore, fun _ => hset⟩⟩

/-- **Running a line hears every interrupt**, and does nothing but launch. -/
theorem Line.run_heard (h : host.Hears arrived P) (line : Line) {x : Watched W} (hx : P x.world) :
    P (line.run host.watched.toLauncher x).2.world ∧
      host.watched.Heard (Watched.arrived arrived) x (line.run host.watched.toLauncher x).2 ∧
      ∃ n, (line.run host.watched.toLauncher x).2.deeds = x.deeds ++ List.replicate n .launched := by
  let Q (y : Watched W) : Prop := P y.world ∧ host.watched.Heard (Watched.arrived arrived) x y ∧
    ∃ n, y.deeds = x.deeds ++ List.replicate n .launched
  have hlaunch {y : Watched W} (hy : Q y) {world : W}
      (hworld : P world ∧ host.Heard arrived y.world world) : Q (y.after host [.launched] world) := by
    obtain ⟨-, hheard, n, hn⟩ := hy
    obtain ⟨hP, hafter⟩ := h.after y [.launched] hworld
    refine ⟨hP, hheard.trans hafter, n + 1, ?_⟩
    change y.deeds ++ [.launched] = _
    rw [hn, List.append_assoc, List.replicate_succ']
  have hpreserves : host.watched.toLauncher.Preserves Q := {
    command := fun command y hy => hlaunch hy (h.command command y.world hy.1)
    pipeline := fun stages y hy => hlaunch hy (h.pipeline stages y.world hy.1) }
  refine Line.run_preserves (P := Q) hpreserves line ⟨hx, .refl _ _ _, 0, ?_⟩
  simp

end

/-! ## The output of a built-in -/

/-- The parts of the listing that a built-in is to give. -/
def Builtin.parts (builtin : Builtin) (s : Session) : List Text :=
  builtin.count?.elim [] s.history.listing

/-- A part of a listing was given to standard output. -/
def Deed.ofPart (part : Text) : Deed := .wrote (Utf8.encode part)

/-- Of the texts to be written, those up to a failure are given to standard output. -/
theorem Watched.writeAll_deeds (host : Host W) (texts : List Text) (x : Watched W) :
    ∃ parts, parts <+: texts ∧
      (host.watched.output.writeAll texts x).2.deeds = x.deeds ++ parts.map Deed.ofPart ∧
      ((host.watched.output.writeAll texts x).1 = none → parts = texts) := by
  induction texts generalizing x with
  | nil => exact ⟨[], List.prefix_rfl, by simp [Writer.writeAll], fun _ => rfl⟩
  | cons text rest ih =>
    have hdeeds : (host.watched.output.write (Utf8.encode text) x).2.deeds = x.deeds ++ [.ofPart text] := rfl
    rw [Writer.writeAll]
    generalize host.watched.output.write (Utf8.encode text) x = wrote at hdeeds
    obtain ⟨fault, y⟩ := wrote
    cases fault with
    | none =>
      obtain ⟨parts, hparts, heq, hall⟩ := ih y
      refine ⟨text :: parts, List.cons_prefix_cons.mpr ⟨rfl, hparts⟩, ?_, fun h => ?_⟩
      · change (host.watched.output.writeAll rest y).2.deeds = _
        rw [heq, hdeeds, List.append_assoc]
        rfl
      · rw [hall h]
    | some errno =>
      exact ⟨[text], List.cons_prefix_cons.mpr ⟨rfl, List.nil_prefix⟩, hdeeds, fun h => absurd h (by simp)⟩

theorem Builtin.perform_deeds (host : Host W) (builtin : Builtin) (s : Session) (x : Watched W) :
    ∃ parts, parts <+: builtin.parts s ∧
      (builtin.perform host.watched.output s x).out.deeds = x.deeds ++ parts.map Deed.ofPart ∧
      ((builtin.perform host.watched.output s x).status = 0 → parts = builtin.parts s) := by
  unfold parts
  cases hcount : builtin.count? with
  | none =>
    rw [perform_of_no_count host.watched.output hcount]
    exact ⟨[], List.prefix_rfl, by simp, fun _ => rfl⟩
  | some count =>
    obtain ⟨parts, hparts, heq, hall⟩ := Watched.writeAll_deeds host (s.history.listing count) x
    rw [perform_of_count host.watched.output hcount, listed_eq]
    refine ⟨parts, hparts, ?_, fun hstatus => hall ?_⟩
    · unfold Writer.print
      simp only
      split
      · rename_i hwritten
        rw [hwritten] at heq
        exact (List.append_nil _).trans heq
      · exact heq
    · unfold Writer.print at hstatus
      simp only at hstatus
      split at hstatus
      · rename_i hwritten
        rw [hwritten]
      · cases hfault : (host.watched.output.writeAll (s.history.listing count) x).1 with
        | none => rfl
        | some errno =>
          rw [hfault] at hstatus
          exact absurd hstatus (by simp)

/-! ## One dispatch -/

namespace Session

section

variable {host : Host W} {arrived : W → Nat} {P : W → Prop}

/-- **Running a line asks about the flag once**, after all launches: it then prints at most one line end
of its own, and what is left in the flag has arrived since. -/
theorem runLine_watched (h : host.Hears arrived P) (line : Line) (s : Session) {x : Watched W}
    (hx : P x.world) {ran : Status × Watched W} (hran : line.run host.watched.toLauncher x = ran)
    {after : Watched W} (hafter : (runLine host.watched line s x).2 = after) :
    P after.world ∧ Watched.arrived arrived ran.2 ≤ Watched.arrived arrived after ∧
      (host.interrupted after.world = true ↔
        Watched.arrived arrived ran.2 < Watched.arrived arrived after) ∧
      after.deeds = ran.2.deeds ++
        if host.interrupted ran.2.world || ran.1 == .signaled interruptSignal then [.printed [10]]
        else [] := by
  have hP : P ran.2.world := by
    have hline := (Line.run_heard h line hx).1
    rwa [hran] at hline
  have hclear := h.watched.setInterrupted false ran.2 hP
  obtain ⟨hPclear, hcount, hflag⟩ := hclear
  unfold runLine Host.takeInterrupt at hafter
  simp only [hran] at hafter
  change (if host.interrupted ran.2.world || ran.1 == .signaled interruptSignal then
    host.watched.print [10] (host.watched.setInterrupted false ran.2)
    else host.watched.setInterrupted false ran.2) = after at hafter
  by_cases hreport : (host.interrupted ran.2.world || ran.1 == .signaled interruptSignal) = true
  · rw [if_pos hreport] at hafter
    obtain ⟨hPafter, hlater, hheard⟩ := h.watched.print [10] _ hPclear
    rw [hafter] at hPafter hlater hheard
    rw [hcount] at hlater hheard
    refine ⟨hPafter, hlater, ?_, ?_⟩
    · change host.interrupted after.world = true ↔ _ at hheard
      rw [hheard, hflag]
      simp
    · rw [if_pos hreport, ← hafter]
      rfl
  · rw [if_neg hreport] at hafter
    rw [hafter] at hPclear hcount hflag
    refine ⟨hPclear, Nat.le_of_eq hcount.symm, ?_, ?_⟩
    · change host.interrupted after.world = false at hflag
      rw [hflag, hcount]
      simp
    · rw [if_neg hreport, ← hafter, List.append_nil]
      rfl

/-- **A built-in leaves the flag alone**, and writes its own output only: the parts of the listing that it
is to give, up to a failure, or all of them. -/
theorem runBuiltin_watched (h : host.Hears arrived P) (builtin : Builtin) (s : Session) {x : Watched W}
    (hx : P x.world) {ran : Session × Watched W} (hran : runBuiltin host.watched builtin s x = ran) :
    P ran.2.world ∧ host.watched.Heard (Watched.arrived arrived) x ran.2 ∧
      ∃ parts, parts <+: builtin.parts s ∧ ran.2.deeds = x.deeds ++ parts.map Deed.ofPart ∧
        (ran.1.lastStatus = 0 → parts = builtin.parts s) := by
  let result := builtin.perform host.watched.output s x
  have houtput : host.watched.output.Preserves fun y =>
      P y.world ∧ host.watched.Heard (Watched.arrived arrived) x y := {
    write := fun bytes y ⟨hy, hheard⟩ =>
      ((h.watched.output.write bytes y hy).imp id hheard.trans)
    flush := fun y ⟨hy, hheard⟩ => ((h.watched.output.flush y hy).imp id hheard.trans) }
  obtain ⟨hP, hheard⟩ : P result.out.world ∧ host.watched.Heard (Watched.arrived arrived) x result.out :=
    builtin.perform_preserves houtput s ⟨hx, .refl _ _ _⟩
  have hdeeds := Builtin.perform_deeds host builtin s x
  subst hran
  unfold runBuiltin
  simp only
  cases hcomplaint : result.complaint with
  | none => exact ⟨hP, hheard, hdeeds⟩
  | some message =>
    obtain ⟨hPcomplain, hcomplain⟩ := h.watched.complain message _ hP
    obtain ⟨parts, hparts, heq, hall⟩ := hdeeds
    exact ⟨hPcomplain, hheard.trans hcomplain, parts, hparts, (List.append_nil _).trans heq, hall⟩

end

end Session

/-! ## Turns -/

/-- What a session meets with. -/
inductive Stimulus where
  | line (text : Text) (record : Bool)
  /-- An interrupt between two lines. -/
  | interrupt

/-- Where a session stands. -/
structure Turn (W : Type u) where
  session : Session
  world : Watched W
  /-- How many interrupts had arrived when the flag was last asked about. -/
  asked : Nat

/-- The line that a text is run as: it is no built-in, and there is something to run. -/
def Line.toRun? (text : Text) : Option Line :=
  if (Builtin.recognize? text).isSome then none else Line.parse? text

namespace Turn

/-- A line is dispatched, or an interrupt arrives. A line that is run asks about the flag when all its
launches are over. -/
def meet (host : Host W) (arrived : W → Nat) (turn : Turn W) : Stimulus → Turn W
  | .interrupt => { turn with world := turn.world.interrupt host }
  | .line text record =>
    let ran := turn.session.dispatch host.watched text record turn.world
    { session := ran.1
      world := ran.2
      asked :=
        match Line.toRun? text with
        | none => turn.asked
        | some line =>
          Watched.arrived arrived (line.run host.watched.toLauncher turn.world).2 }

/-- Lines and interrupts, one after another. -/
def meetAll (host : Host W) (arrived : W → Nat) (turn : Turn W) (stimuli : List Stimulus) : Turn W :=
  stimuli.foldl (meet host arrived) turn

/-- The flag is set exactly if an interrupt has arrived since it was last asked about. -/
structure Fair (host : Host W) (arrived : W → Nat) (P : W → Prop) (turn : Turn W) : Prop where
  sound : P turn.world.world
  before : turn.asked ≤ Watched.arrived arrived turn.world
  flag : host.interrupted turn.world.world = true ↔
    turn.asked < Watched.arrived arrived turn.world

/-- What a dispatch reports of interrupts at this turn. -/
structure Reports (host : Host W) (arrived : W → Nat) (turn : Turn W) (text : Text) (record : Bool) :
    Prop where
  /-- A line that is run is reported on after its launches, by one line end of the session's own, exactly
  if an interrupt has arrived since the flag was last asked about or the line died by one; the flag is
  then clear, unless one has arrived after that. -/
  ran : ∀ line, Line.toRun? text = some line → ∀ ran after,
    line.run host.watched.toLauncher turn.world = ran →
    (turn.session.dispatch host.watched text record turn.world).2 = after →
    (∃ launches, after.deeds = turn.world.deeds ++ List.replicate launches .launched ++
      if turn.asked < Watched.arrived arrived ran.2 ∨ ran.1 = .signaled 2 then [.printed [10]] else []) ∧
    (host.interrupted after.world = true ↔
      Watched.arrived arrived ran.2 < Watched.arrived arrived after)
  /-- A built-in writes its own output only, as far as it is taken, and leaves the flag as it was, but for
  what arrives meanwhile. -/
  builtin : ∀ builtin, Builtin.recognize? text = some builtin → ∀ ran,
    turn.session.dispatch host.watched text record turn.world = ran →
    (∃ parts, parts <+: builtin.parts turn.session ∧
      ran.2.deeds = turn.world.deeds ++ parts.map Deed.ofPart ∧
      (ran.1.lastStatus = 0 → parts = builtin.parts turn.session)) ∧
    (host.interrupted ran.2.world = true ↔ host.interrupted turn.world.world = true ∨
      Watched.arrived arrived turn.world < Watched.arrived arrived ran.2)
  /-- A line in which there is nothing to run does nothing. -/
  nothing : Builtin.recognize? text = none → Line.parse? text = none →
    (turn.session.dispatch host.watched text record turn.world).2 = turn.world

section

variable {host : Host W} {arrived : W → Nat} {P : W → Prop} {turn : Turn W}

theorem toRun?_eq_some_iff {text : Text} {line : Line} :
    Line.toRun? text = some line ↔ Builtin.recognize? text = none ∧ Line.parse? text = some line := by
  unfold Line.toRun?
  cases Builtin.recognize? text <;> simp

/-- An interrupt keeps it so. -/
theorem Fair.interrupt (h : host.Hears arrived P) (hturn : Fair host arrived P turn) :
    Fair host arrived P (turn.meet host arrived .interrupt) := by
  obtain ⟨hP, hheard⟩ := Watched.interrupt_heard h hturn.sound
  have hbefore := hturn.before
  have hlater := hheard.later
  refine ⟨hP, Nat.le_trans hbefore hlater, ?_⟩
  have hflag := hheard.flag
  change host.interrupted _ = true ↔ host.interrupted turn.world.world = true ∨ _ at hflag
  change host.interrupted (turn.world.interrupt host).world = true ↔
    turn.asked < Watched.arrived arrived (turn.world.interrupt host)
  rw [hflag, hturn.flag]
  omega

/-- A line keeps it so. -/
theorem Fair.line (h : host.Hears arrived P) (hturn : Fair host arrived P turn) (text : Text)
    (record : Bool) : Fair host arrived P (turn.meet host arrived (.line text record)) := by
  have hbefore := hturn.before
  cases hbuiltin : Builtin.recognize? text with
  | some builtin =>
    have hrun : Line.toRun? text = none := by
      unfold Line.toRun?
      rw [hbuiltin]
      rfl
    have hdispatch := Session.dispatch_of_builtin host.watched hbuiltin record turn.session turn.world
    obtain ⟨hP, hheard, -⟩ := Session.runBuiltin_watched h builtin turn.session hturn.sound rfl
    rw [← hdispatch] at hP hheard
    have hlater := hheard.later
    have hflag := hheard.flag
    change host.interrupted _ = true ↔ host.interrupted turn.world.world = true ∨ _ at hflag
    rw [hturn.flag] at hflag
    unfold meet
    simp only [hrun]
    have hsince : turn.asked < Watched.arrived arrived turn.world ∨
        Watched.arrived arrived turn.world <
          Watched.arrived arrived
            (turn.session.dispatch host.watched text record turn.world).2 ↔
        turn.asked < Watched.arrived arrived
          (turn.session.dispatch host.watched text record turn.world).2 := by
      omega
    exact ⟨hP, Nat.le_trans hbefore hlater, hflag.trans hsince⟩
  | none =>
    cases hparse : Line.parse? text with
    | none =>
      have hrun : Line.toRun? text = none := by
        unfold Line.toRun?
        rw [hbuiltin]
        exact hparse
      unfold meet
      simp only [hrun, Session.dispatch_of_nothing host.watched hbuiltin hparse]
      exact ⟨hturn.sound, hbefore, hturn.flag⟩
    | some line =>
      have hrun := toRun?_eq_some_iff.mpr ⟨hbuiltin, hparse⟩
      unfold meet
      simp only [hrun, Session.dispatch_of_line host.watched hbuiltin hparse]
      obtain ⟨hP, hlater, hflag, -⟩ := Session.runLine_watched h line (turn.session.noting text record)
        hturn.sound rfl rfl
      exact ⟨hP, hlater, hflag⟩

/-- **Whatever lines and interrupts come, the flag is set exactly if one has arrived since it was last
asked about.** -/
theorem Fair.meetAll (h : host.Hears arrived P) (hturn : Fair host arrived P turn)
    (stimuli : List Stimulus) : Fair host arrived P (turn.meetAll host arrived stimuli) := by
  induction stimuli generalizing turn with
  | nil => exact hturn
  | cons stimulus rest ih =>
    cases stimulus with
    | interrupt => exact ih (hturn.interrupt h)
    | line text record => exact ih (hturn.line h text record)

/-- **A dispatch reports an interrupt once**, and only where there was something to run. -/
theorem Fair.reports (h : host.Hears arrived P) (hturn : Fair host arrived P turn) (text : Text)
    (record : Bool) : Reports host arrived turn text record where
  ran := by
    rintro line hrun ran after hran rfl
    obtain ⟨hbuiltin, hparse⟩ := toRun?_eq_some_iff.mp hrun
    rw [Session.dispatch_of_line host.watched hbuiltin hparse]
    obtain ⟨-, hheard, launches, hlaunches⟩ := Line.run_heard h line hturn.sound
    obtain ⟨-, -, hflag, hdeeds⟩ := Session.runLine_watched h line (turn.session.noting text record)
      hturn.sound hran rfl
    rw [hran] at hheard hlaunches
    have hbefore := hturn.before
    have hlater := hheard.later
    -- what has arrived since the flag was last asked about has set it by now
    have hset : host.interrupted ran.2.world = true ↔ turn.asked < Watched.arrived arrived ran.2 := by
      have hsince := hheard.flag
      change host.interrupted _ = true ↔ host.interrupted turn.world.world = true ∨ _ at hsince
      rw [hsince, hturn.flag]
      omega
    refine ⟨⟨launches, ?_⟩, hflag⟩
    rw [hdeeds, hlaunches]
    simp only [Bool.or_eq_true, beq_iff_eq, hset, Session.interruptSignal]
  builtin := by
    rintro builtin hbuiltin ran hran
    rw [Session.dispatch_of_builtin host.watched hbuiltin] at hran
    obtain ⟨-, hheard, hdeeds⟩ := Session.runBuiltin_watched h builtin turn.session hturn.sound hran
    exact ⟨hdeeds, hheard.flag⟩
  nothing hbuiltin hparse := by
    rw [Session.dispatch_of_nothing host.watched hbuiltin hparse]

end

end Turn

end LineShell
