import LineShell.Session.History
import LineShell.Text.Pieces
import LineShell.Writer

/-!
# Built-in commands

`exit` and `history` are carried out by the interpreter itself. They are recognized on the raw line,
and only on a line without operators: one that holds `|`, `;` or `&&` anywhere is never a built-in.
Their output goes to a `Writer`; a `Sink` is one that may run out of room.
-/

namespace LineShell

/-- A built-in command with its argument; further words are not looked at. -/
inductive Builtin where
  /-- `exit [N]`: end the session. -/
  | exit (argument : Option Text)
  /-- `history [N]`: list the history, or its last entries. -/
  | history (argument : Option Text)
  deriving DecidableEq, Repr

/-- The state of a session: its history, the status of the last command, and whether it is over. -/
structure Session where
  history : History
  lastStatus : Int
  shouldExit : Bool
  deriving DecidableEq, Repr

/-- A place for output that takes only so many bytes, if `room` says so. -/
structure Sink where
  room : Option Nat
  received : Bytes
  deriving DecidableEq, Repr

namespace Sink

/-- Writes bytes as far as there is room. -/
def write (bytes : Bytes) (out : Sink) : Option Errno × Sink :=
  match out.room with
  | none => (none, { out with received := out.received ++ bytes })
  | some room =>
    (if bytes.length ≤ room then none else some .noSpace,
      ⟨some (room - bytes.length), out.received ++ bytes.take room⟩)

/-- A sink as a place for output, which holds nothing back. -/
def writer : Writer Sink where
  write := write
  flush out := (none, out)

end Sink

namespace Builtin

/-- The built-in that a line asks for, if it does (`recognize`). -/
def recognize? (line : Text) : Option Builtin :=
  if '|' ∈ line || ';' ∈ line || (Text.cutAtAnd line).isSome then none
  else
    match Text.words line with
    | [] => none
    | name :: rest =>
      if name = "exit".toList then some (.exit rest.head?)
      else if name = "history".toList then some (.history rest.head?)
      else none

/-- What running a built-in brings about. -/
structure Result (W : Type u) where
  status : Int
  /-- A message for standard error. -/
  complaint : Option Text
  session : Session
  out : W

/-- The complaint about an argument that is no number. -/
def numberRequired (name : String) (argument : Text) : Text :=
  name.toList ++ ": ".toList ++ argument ++ ": numeric argument required".toList

variable {W : Type u}

/-- What comes of listing entries: a failure of the output is complained about. -/
def listed (out : Writer W) (count : Option Nat) (s : Session) (w : W) : Result W :=
  match out.print (s.history.listing count) w with
  | (none, w) => ⟨0, none, s, w⟩
  | (some errno, w) => ⟨1, some ("history: ".toList ++ errno.describe), s, w⟩

/-- Runs a built-in with a place for its output (`run` of the built-ins). Only a listing is written
there; nothing else is written or flushed. -/
def perform (out : Writer W) : Builtin → Session → W → Result W
  | .exit argument, s, w =>
    let s := { s with shouldExit := true }
    match argument with
    | none => ⟨0, none, s, w⟩
    | some text =>
      match Text.int32? text with
      | some status => ⟨status, none, s, w⟩
      | none => ⟨2, some (numberRequired "exit" text), s, w⟩
  | .history none, s, w => listed out none s w
  | .history (some text), s, w =>
    match Text.count? text with
    | some count => listed out (some count) s w
    | none => ⟨2, some (numberRequired "history" text), s, w⟩

/-- Runs a built-in that writes to a sink. -/
def run : Builtin → Session → Sink → Result Sink :=
  perform Sink.writer

end Builtin

end LineShell
