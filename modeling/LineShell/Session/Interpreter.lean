import LineShell.Cli.Config
import LineShell.Redirect.Plan
import LineShell.Session.Dispatch
import LineShell.Session.Reader

/-!
# A whole run

`Console.run` carries a configuration out. A single line is dispatched alone, and its status is the
run's. Otherwise lines are read, from the script or from standard input, and dispatched one by one
until one of them ends the session, whose status is then the run's, or until the input ends, and then
the run is a success.

Standard input is interactive when it is a terminal: then the startup lines come first, unrecorded,
and each line is asked for by a prompt. Of the startup file blank lines and comment lines are left
out, the others are trimmed, and a file that cannot be read as a text is as good as none.

Nothing bounds the lines that an input may hold: a script may grow while it is read. So the number of
lines to be read is bounded by an argument, and a run that would read more has no result.
-/

namespace LineShell

/-- What a whole run needs of the world. -/
structure Console (W : Type u) extends Host W where
  /-- Standard input is a terminal. -/
  isTerminal : W → Bool
  /-- Writes to standard output at once, past what has been printed (`write_all`). -/
  writeThrough : Text → W → W
  /-- Opens a script: the descriptor to read it from. -/
  openScript : Text → W → Except OpenFailure (Nat × W)
  /-- The content of a file, if it can be read. -/
  readFile : Text → W → Option Bytes
  /-- What reads from a descriptor will bring, as long as nobody else acts. -/
  arrivals : Nat → W → List Arrival
  /-- The world after so many of these reads were made. -/
  advance : Nat → Nat → W → W
  /-- Writes a warning to the log. -/
  warn : Text → W → W

/-- Where the lines of a run come from. -/
inductive Source where
  | standardInput
  | script (descriptor : Nat)
  deriving DecidableEq, Repr

/-- The descriptor to read from. -/
def Source.descriptor : Source → Nat
  | .standardInput => 0
  | .script fd => fd

namespace Console

variable {W : Type u}

/-- Lines are asked for by a prompt. -/
def isInteractive (console : Console W) (source : Source) (w : W) : Bool :=
  source == .standardInput && console.isTerminal w

/-! ## Startup lines -/

/-- The lines of a startup file that are to be dispatched: trimmed, and neither blank nor a
comment. -/
def startupLines (content : Text) : List Text :=
  ((content.splitOnP (· == '\n')).map Text.trim).filter fun line =>
    !line.isEmpty && line.head? != some '#'

/-- Dispatches lines, unrecorded, until one of them ends the session. -/
def dispatchAll (console : Console W) : List Text → Session → W → Session × W
  | [], s, w => (s, w)
  | line :: rest, s, w =>
    let (s, w) := s.dispatch console.toHost line false w
    if s.shouldExit then (s, w) else dispatchAll console rest s w

/-- Dispatches the startup lines of a file (`load_rc`). -/
def loadStartup (console : Console W) (path : Text) (s : Session) (w : W) : Session × W :=
  match (console.readFile path w).bind Utf8.decode? with
  | none => (s, w)
  | some content => console.dispatchAll (startupLines content) s w

/-! ## The loop -/

/-- Asks for a line, where lines are asked for; what has been printed is written out before. -/
def ask (console : Console W) (interactive : Bool) (prompt : Text) (w : W) : W :=
  if interactive then console.writeThrough prompt (console.output.flush w).2 else w

/-- Ends the line of a prompt that no line came after. -/
def endLine (console : Console W) (interactive : Bool) (w : W) : W :=
  if interactive then console.writeThrough ['\n'] w else w

/-- Reads one line from a descriptor (`LineReader::read_line`, without the prompt). -/
def readLine (console : Console W) (fd : Nat) (w : W) : ReadEvent × W :=
  let arrivals := console.arrivals fd w
  let reading := LineShell.readLine (console.interrupted w) arrivals
  let w := console.advance fd (arrivals.length - reading.rest.length) w
  let w := console.setInterrupted reading.pending w
  let w := reading.failure.elim w fun errno =>
    console.warn ("read: ".toList ++ errno.describe) w
  (reading.event, w)

/-- Reads and dispatches lines until the session or the input ends (the loop of `main`); at most `limit`
lines are read. -/
def loop (console : Console W) (source : Source) (interactive : Bool) :
    Nat → Session → W → Option (Session × W)
  | 0, _, _ => none
  | limit + 1, s, w =>
    if s.shouldExit then some (s, w)
    else
      let (event, w) := console.readLine source.descriptor (console.ask interactive s.prompt w)
      match event with
      | .line line =>
        let (s, w) := s.dispatch console.toHost line true w
        loop console source interactive limit s w
      | .interrupted => loop console source interactive limit s (console.endLine interactive w)
      | .endOfInput => some (s, console.endLine interactive w)

/-- The status of a run whose lines were read: that of the line which ended the session, if one
did. -/
def finalStatus (s : Session) : Int :=
  if s.shouldExit then s.lastStatus else 0

/-- The exit code of a script that cannot be opened. -/
def noScriptStatus : Int := 127

/-- Dispatches startup lines, if they are wanted, and then lines from a source. -/
def runSource (console : Console W) (env : Environment) (config : Config) (limit : Nat)
    (source : Source) (w : W) : Option (Int × W) :=
  let s := Session.start config.historySize
  let interactive := console.isInteractive source w
  let (s, w) :=
    match if interactive then config.rcPath env else none with
    | some path => console.loadStartup path s w
    | none => (s, w)
  (console.loop source interactive limit s w).map fun (s, w) => (finalStatus s, w)

/-- Carries a configuration out (`main`), reading at most `limit` lines: the status of the run. -/
def run (console : Console W) (env : Environment) (config : Config) (limit : Nat) (w : W) :
    Option (Int × W) :=
  match config.command, config.script with
  | some line, _ =>
    let (s, w) := (Session.start config.historySize).dispatch console.toHost line true w
    some (s.lastStatus, w)
  | none, none => console.runSource env config limit .standardInput w
  | none, some path =>
    match console.openScript path w with
    | .ok (fd, w) => console.runSource env config limit (.script fd) w
    | .error failure =>
      some (noScriptStatus, console.complain (path ++ ": ".toList ++ failure.message) w)

/-- The exit code that the system makes of a status: its low eight bits. -/
def exitCode (status : Int) : Nat :=
  (status % 256).toNat

end Console

end LineShell
