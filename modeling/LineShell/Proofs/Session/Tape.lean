import LineShell.Session.Interpreter

/-!
# A small world

A `Tape` is a world that is little more than its standard input: what the reads to come will bring,
whether it is a terminal, and a startup file. Its commands all succeed; `head -c` makes so many reads,
`cat` makes all that are left, and no other command makes any. In a pipeline only the first stage has the
standard input.
-/

namespace LineShell

/-- A world that is its standard input and a startup file. -/
structure Tape where
  reads : List Arrival
  isTerminal : Bool
  startup : Option Bytes

namespace Tape

/-- The reads that bring a text. -/
def readsOf (text : String) : List Arrival :=
  (Utf8.encode text.toList).map .byte

/-- How many reads a command makes. -/
def wanted (tape : Tape) (command : Command) : Nat :=
  match command.words with
  | [name] => if name = "cat".toList then tape.reads.length else 0
  | [name, option, count] =>
    if name = "head".toList ∧ option = "-c".toList then (Text.count? count).getD 0 else 0
  | _ => 0

/-- The tape with some reads made. -/
def forward (tape : Tape) (count : Nat) : Tape :=
  { tape with reads := tape.reads.drop count }

/-- Runs a command. -/
def command (command : Command) (tape : Tape) : Status × Tape :=
  (.success, tape.forward (tape.wanted command))

/-- Runs a pipeline. -/
def pipeline (stages : List Command) (tape : Tape) : Status × Tape :=
  match stages with
  | [] => (.success, tape)
  | first :: _ => Tape.command first tape

/-- What a run needs of a tape: there is nowhere to write to, and no script. -/
def console : Console Tape where
  command := Tape.command
  pipeline := Tape.pipeline
  interrupted _ := false
  setInterrupted _ tape := tape
  output := { write := fun _ tape => (none, tape), flush := fun tape => (none, tape) }
  print _ tape := tape
  complain _ tape := tape
  isTerminal := Tape.isTerminal
  writeThrough _ tape := tape
  openScript _ _ := .error (.refused .noEntry)
  readFile _ := Tape.startup
  arrivals _ := Tape.reads
  advance _ count tape := tape.forward count
  warn _ tape := tape

end Tape

end LineShell
