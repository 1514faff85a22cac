import LineShell.Evaluation
import LineShell.Session.Builtin

/-!
# Dispatching lines

A session takes one line at a time. A built-in is run at once and is not recorded; any other line is
recorded (where that is asked for) and then run. The session remembers the status, which the prompt
shows, except where there was nothing to run: then all stays as it was.

A `Host` is what the session needs of the world beside running commands: whether an interrupt has
arrived, and where to print. An interrupt that arrived while a line ran is answered by one line end.
-/

namespace LineShell

/-- What a session needs of the world it runs in. -/
structure Host (W : Type u) extends Launcher W where
  /-- An interrupt has arrived that nobody has asked about yet. -/
  interrupted : W → Bool
  /-- Forgets or recalls an interrupt. -/
  setInterrupted : Bool → W → W
  /-- Standard output, for the built-in commands. -/
  output : Writer W
  /-- Prints to standard output, whatever comes of it. -/
  print : Bytes → W → W
  /-- Writes a diagnostic to standard error. -/
  complain : Text → W → W

/-- Asks whether an interrupt has arrived, and forgets it (`take_interrupt`). -/
def Host.takeInterrupt {W : Type u} (host : Host W) (w : W) : Bool × W :=
  (host.interrupted w, host.setInterrupted false w)

namespace Session

/-- The session at its beginning. -/
def start (capacity : Nat) : Session := ⟨.empty capacity, 0, false⟩

/-- The prompt: it shows a status other than 0 (`Shell::prompt`). -/
def prompt (s : Session) : Text :=
  if s.lastStatus = 0 then "vsh$ ".toList
  else '[' :: Text.ofInt s.lastStatus ++ "] vsh$ ".toList

/-- The number of the interrupt signal. -/
def interruptSignal : Nat := 2

variable {W : Type u}

/-- Runs a built-in for the session, with the world's standard output (the first branch of `dispatch`). -/
def runBuiltin (host : Host W) (builtin : Builtin) (s : Session) (w : W) : Session × W :=
  let result := builtin.perform host.output s w
  let w := result.complaint.elim result.out (host.complain · result.out)
  ({ result.session with lastStatus := result.status }, w)

/-- Runs a line that is no built-in, and looks whether an interrupt arrived meanwhile (the rest of
`dispatch`). -/
def runLine (host : Host W) (line : Line) (s : Session) (w : W) : Session × W :=
  let (status, w) := line.run host.toLauncher w
  let (interrupted, w) := host.takeInterrupt w
  let w := if interrupted || status == .signaled interruptSignal then host.print [10] w else w
  ({ s with lastStatus := status.code }, w)

/-- Takes one line (`Shell::dispatch`); `record` tells whether it may go to the history. The status of
the line is the session's last status afterwards. -/
def dispatch (host : Host W) (line : Text) (record : Bool) (s : Session) (w : W) : Session × W :=
  match Builtin.recognize? line with
  | some builtin => runBuiltin host builtin s w
  | none =>
    let s := if record then { s with history := s.history.push line } else s
    match Line.parse? line with
    | none => (s, w)
    | some parsed => runLine host parsed s w

end Session

end LineShell
