import LineShell.Proofs.Session.Dispatches
import LineShell.Proofs.Session.Rounds
import LineShell.Proofs.Session.Tape

/-!
# How a run ends

A run dispatches its startup lines up to the first that is an `exit`, unrecorded; if there was none, it
goes round by round until the input ends or a line is an `exit`.

* `Console.untilExit`: what is dispatched of some lines is told by the lines alone.
* `Console.startup`: the startup lines of a run, none where they are not wanted or cannot be read.
* `Console.Exits`: a run comes to its end with an exit code, and leaves a world.
* `Console.exits_iff`: a run ends in one way only, which its lines and events tell.
-/

namespace LineShell

namespace Console

variable {W : Type u}

/-! ## Startup lines -/

/-- Lines up to the first that is an `exit`, with that one. -/
def untilExit : List Text → List Text
  | [] => []
  | line :: rest => if (Builtin.exitStatus? line).isSome then [line] else line :: untilExit rest

/-- What is dispatched of startup lines are those up to the first `exit`, unrecorded. -/
theorem dispatchAll_eq (console : Console W) (lines : List Text) {s : Session}
    (hs : s.shouldExit = false) (w : W) :
    console.dispatchAll lines s w =
      s.dispatchAll console.toHost ((untilExit lines).map fun line => (line, false)) w := by
  induction lines generalizing s w with
  | nil => rfl
  | cons line rest ih =>
    have hover := Session.dispatch_shouldExit console.toHost line false s w
    rw [hs, Bool.false_or] at hover
    rw [dispatchAll, untilExit]
    cases hexit : (Builtin.exitStatus? line).isSome with
    | true => simp [hover, hexit, Session.dispatchAll]
    | false =>
      rw [hexit] at hover
      simp only [hover, Bool.false_eq_true, if_false]
      exact ih hover _

/-- Startup lines end the session if one of them is an `exit`; the first that is gives the status. -/
theorem dispatchAll_outcome (console : Console W) (lines : List Text) {s : Session}
    (hs : s.shouldExit = false) (w : W) :
    let ran := (console.dispatchAll lines s w).1
    ran.shouldExit = (lines.findSome? Builtin.exitStatus?).isSome ∧
      ∀ status, lines.findSome? Builtin.exitStatus? = some status → ran.lastStatus = status := by
  induction lines generalizing s w with
  | nil => exact ⟨hs, by simp⟩
  | cons line rest ih =>
    have hover := Session.dispatch_shouldExit console.toHost line false s w
    rw [hs, Bool.false_or] at hover
    rw [dispatchAll, List.findSome?_cons]
    cases hexit : Builtin.exitStatus? line with
    | some status =>
      rw [hexit, Option.isSome_some] at hover
      simp only [hover, if_true, Option.isSome_some, true_and]
      intro status' h
      obtain rfl := Option.some.inj h
      exact Session.dispatch_lastStatus_of_exit console.toHost hexit false s w
    | none =>
      rw [hexit, Option.isSome_none] at hover
      simp only [hover, Bool.false_eq_true, if_false]
      exact ih hover _

/-- The startup lines of a run. -/
def startup (console : Console W) (env : Environment) (config : Config) (source : Source) (w : W) :
    List Text :=
  if console.isInteractive source w then
    ((config.rcPath env).bind fun path => (console.readFile path w).bind Utf8.decode?).elim []
      startupLines
  else []

/-! ## A run -/

/-- The lines come from a source, which has been opened if it had to be. -/
inductive Opened (console : Console W) (config : Config) (w : W) : Source → W → Prop where
  | standardInput : config.script = none → Opened console config w .standardInput w
  | script {path : Text} {fd : Nat} {opened : W} : config.script = some path →
      console.openScript path w = .ok (fd, opened) → Opened console config w (.script fd) opened

/-- A run comes to its end with an exit code, and leaves a world. -/
def Exits (console : Console W) (env : Environment) (config : Config) (w : W) (code : Nat)
    (final : W) : Prop :=
  ∃ limit status, console.run env config limit w = some (status, final) ∧ code = exitCode status

variable {console : Console W} {env : Environment} {config : Config} {source : Source} {w opened : W}

theorem run_of_opened (h : config.command = none) (hopened : console.Opened config w source opened)
    (limit : Nat) : console.run env config limit w = console.runSource env config limit source opened := by
  cases hopened with
  | standardInput hscript => simp only [run, h, hscript]
  | script hscript hopen => simp only [run, h, hscript, hopen]

/-- The loop follows upon the startup lines. -/
theorem runSource_eq (limit : Nat) :
    console.runSource env config limit source w =
      let begun := console.dispatchAll (console.startup env config source w)
        (Session.start config.historySize) w
      (console.loop source (console.isInteractive source w) limit begun.1 begun.2).map
        fun (s, w) => (finalStatus s, w) := by
  unfold runSource startup
  cases console.isInteractive source w with
  | false => rfl
  | true =>
    simp only [if_true]
    cases config.rcPath env with
    | none => rfl
    | some path =>
      simp only [loadStartup, Option.bind_some]
      cases (console.readFile path w).bind Utf8.decode? <;> rfl

theorem exits_of_command {line : Text} (h : config.command = some line) (code : Nat) (final : W) :
    console.Exits env config w code final ↔
      let ran := (Session.start config.historySize).dispatch console.toHost line true w
      code = (ran.1.lastStatus % 256).toNat ∧ final = ran.2 := by
  have hrun (limit : Nat) : console.run env config limit w =
      let ran := (Session.start config.historySize).dispatch console.toHost line true w
      some (ran.1.lastStatus, ran.2) := by
    simp only [run, h]
  constructor
  · rintro ⟨limit, status, hended, rfl⟩
    rw [hrun] at hended
    obtain ⟨rfl, rfl⟩ := Prod.mk.inj (Option.some.inj hended)
    exact ⟨rfl, rfl⟩
  · rintro ⟨rfl, rfl⟩
    exact ⟨0, _, hrun 0, rfl⟩

/-- Where the startup lines end the session, nothing is read. -/
theorem exits_of_startup (hcommand : config.command = none)
    (hopened : console.Opened config w source opened) {status : Int}
    (h : (console.startup env config source opened).findSome? Builtin.exitStatus? = some status)
    {begun : Session × W} (hbegun : console.dispatchAll (console.startup env config source opened)
      (Session.start config.historySize) opened = begun) (code : Nat) (final : W) :
    console.Exits env config w code final ↔ code = (status % 256).toNat ∧ final = begun.2 := by
  subst hbegun
  obtain ⟨hover, hstatus⟩ := console.dispatchAll_outcome (console.startup env config source opened)
    (s := Session.start config.historySize) rfl opened
  rw [h, Option.isSome_some] at hover
  have hrun (limit : Nat) : console.run env config (limit + 1) w = some (status,
      (console.dispatchAll (console.startup env config source opened)
        (Session.start config.historySize) opened).2) := by
    rw [run_of_opened hcommand hopened, runSource_eq]
    simp only
    rw [loop_of_over hover, Option.map_some, finalStatus, if_pos hover, hstatus status h]
  constructor
  · rintro ⟨limit, status', hended, rfl⟩
    cases limit with
    | zero =>
      rw [run_of_opened hcommand hopened, runSource_eq] at hended
      exact absurd hended (by simp [loop])
    | succ limit =>
      rw [hrun] at hended
      obtain ⟨rfl, rfl⟩ := Prod.mk.inj (Option.some.inj hended)
      exact ⟨rfl, rfl⟩
  · rintro ⟨rfl, rfl⟩
    exact ⟨1, status, hrun 0, rfl⟩

/-- Where they do not, the run ends with the first round that ends it. -/
theorem exits_of_rounds (hcommand : config.command = none)
    (hopened : console.Opened config w source opened)
    (h : (console.startup env config source opened).findSome? Builtin.exitStatus? = none)
    {begun : Session × W} (hbegun : console.dispatchAll (console.startup env config source opened)
      (Session.start config.historySize) opened = begun) (code : Nat) (final : W) :
    let interactive := console.isInteractive source opened
    console.Exits env config w code final ↔
      ∃ n status, console.EndsAfter source interactive n begun.1 begun.2 status ∧
        code = (status % 256).toNat ∧
          final = (console.roundAfter source interactive n begun.1 begun.2).after.2 := by
  intro interactive
  have hgoes := (console.dispatchAll_outcome (console.startup env config source opened)
    (s := Session.start config.historySize) rfl opened).1
  rw [h, Option.isSome_none, hbegun] at hgoes
  have hrun (limit : Nat) : console.run env config limit w =
      (console.loop source interactive limit begun.1 begun.2).map
        fun (s, w) => (finalStatus s, w) := by
    rw [run_of_opened hcommand hopened, runSource_eq]
    simp only [hbegun]
    rfl
  constructor
  · rintro ⟨limit, status, hended, rfl⟩
    rw [hrun] at hended
    obtain ⟨result, hloop, hresult⟩ := Option.map_eq_some_iff.mp hended
    obtain ⟨rfl, rfl⟩ := Prod.mk.inj hresult
    obtain ⟨n, -, status, hends, rfl, rfl⟩ := ends_of_loop hgoes hloop
    exact ⟨n, _, hends, rfl, rfl⟩
  · rintro ⟨n, status, hends, rfl, rfl⟩
    obtain ⟨hloop, hstatus⟩ := loop_of_ends hgoes hends (show n + 1 < n + 2 by omega)
    refine ⟨n + 2, status, ?_, rfl⟩
    rw [hrun, hloop, Option.map_some]
    exact congrArg (fun status => some (status, _)) hstatus

/-- **A run ends in one way only.**

With a line to run, it dispatches that line alone and ends with its status. Otherwise it dispatches the
startup lines up to the first that is an `exit`, which ends it; if there is none, it ends in the first
round in which the input ends or a line is an `exit`. Status 0 is for the end of the input, and an `exit`
has its own; of any status the exit code is what is left modulo 256. In each round a line that was read is
dispatched, to be recorded, and an interrupted read does nothing to the session. -/
theorem exits_iff (console : Console W) (env : Environment) (config : Config) (w : W) :
    (∀ line, config.command = some line → ∀ code final,
      let ran := (Session.start config.historySize).dispatch console.toHost line true w
      console.Exits env config w code final ↔ code = (ran.1.lastStatus % 256).toNat ∧ final = ran.2) ∧
    ∀ source opened, config.command = none → console.Opened config w source opened →
      let startup := console.startup env config source opened
      let begun := (Session.start config.historySize).dispatchAll console.toHost
        ((untilExit startup).map fun line => (line, false)) opened
      let interactive := console.isInteractive source opened
      let round (n : Nat) := console.roundAfter source interactive n begun.1 begun.2
      let before (n : Nat) := console.afterRounds source interactive n begun.1 begun.2
      (∀ status, startup.findSome? Builtin.exitStatus? = some status → ∀ code final,
        console.Exits env config w code final ↔ code = (status % 256).toNat ∧ final = begun.2) ∧
      (startup.findSome? Builtin.exitStatus? = none → ∀ code final,
        console.Exits env config w code final ↔
          ∃ n status, console.EndsAfter source interactive n begun.1 begun.2 status ∧
            code = (status % 256).toNat ∧ final = (round n).after.2) ∧
      (∀ n line, (round n).event = .line line →
        before (n + 1) = (before n).1.dispatch console.toHost line true (round n).read) ∧
      ∀ n, (round n).event = .interrupted → (before (n + 1)).1 = (before n).1 := by
  refine ⟨fun line hline => exits_of_command hline, fun source opened hcommand hopened => ?_⟩
  intro startup begun interactive round before
  have hbegun : console.dispatchAll startup (Session.start config.historySize) opened = begun :=
    console.dispatchAll_eq startup rfl opened
  refine ⟨fun status h => exits_of_startup hcommand hopened h hbegun,
    fun h => exits_of_rounds hcommand hopened h hbegun, fun n line hevent => ?_, fun n hevent => ?_⟩
  · rw [show before (n + 1) = (round n).after from afterRounds_succ n _ _]
    exact round_after_line hevent
  · rw [show before (n + 1) = (round n).after from afterRounds_succ n _ _]
    have hround : (round n).after = _ :=
      round_after_of_no_line fun line h => ReadEvent.noConfusion (hevent.symm.trans h)
    rw [hround]

/-- Three runs at a terminal where an interrupt arrives in the first line that is typed: with a line to
run; with an `exit` in the startup file, so that nothing is read; and with a startup file that has none,
where `exit 300` is the line that ends the run and `exit 1` is not read. -/
theorem exits_iff_interrupted_line :
    let typed (startup : String) : Tape :=
      ⟨.byte 120 :: .signal true :: Tape.readsOf "exit 300\nexit 1\n", true,
        some (Utf8.encode startup.toList)⟩
    let exits (line : Option String) (startup : String) :=
      Tape.console.Exits ⟨none, some "/root".toList, none⟩
        ⟨line.map String.toList, 10, none, false, none⟩ (typed startup)
    exits (some "exit -1") "exit 7\n" 255 (typed "exit 7\n") ∧
      exits none "# first\n exit 7 \nexit 8\n" 7 (typed "# first\n exit 7 \nexit 8\n") ∧
      exits none "# first\n\nhistory" 44
        ⟨Tape.readsOf "exit 1\n", true, some (Utf8.encode "# first\n\nhistory".toList)⟩ :=
  ⟨((exits_iff _ _ _ _).1 _ rfl _ _).mpr ⟨rfl, rfl⟩,
    (((exits_iff _ _ _ _).2 _ _ rfl (.standardInput rfl)).1 7 rfl _ _).mpr ⟨rfl, rfl⟩,
    (((exits_iff _ _ _ _).2 _ _ rfl (.standardInput rfl)).2.1 rfl _ _).mpr
      ⟨1, 300, ⟨by decide, rfl⟩, rfl, rfl⟩⟩

end Console

end LineShell
