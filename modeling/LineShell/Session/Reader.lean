import LineShell.Errno
import LineShell.Text.Utf8

/-!
# Reading lines

Input arrives one read at a time, and a read is for one byte: it brings a byte, the end of the input,
a signal that broke it off, or a failure. `readLine` reads up to the next line end and not a byte
further, so that what follows is left to others who read the same input. When the reads that are
listed are used up, every further read brings the end of the input.

* An unfinished line at the end of the input counts as a line.
* A signal that is not an interrupt is as if it had not been.
* An interrupt drops the line as far as it was read.
* A failure ends the input.
-/

namespace LineShell

/-- What one read brings. -/
inductive Arrival where
  | byte (value : UInt8)
  | endOfInput
  /-- The read was broken off by a signal, which is an interrupt or some other one. -/
  | signal (interrupt : Bool)
  | failed (errno : Errno)
  deriving DecidableEq, Repr

/-- The result of reading a line. -/
inductive ReadEvent where
  | line (text : Text)
  | interrupted
  | endOfInput
  deriving DecidableEq, Repr

/-- What reading a line comes to, and the state of things after it. -/
structure Reading where
  event : ReadEvent
  /-- An interrupt has arrived that nobody has asked about yet. -/
  pending : Bool
  /-- The failure that ended the input. -/
  failure : Option Errno
  /-- The reads that have not been made. -/
  rest : List Arrival

/-- The event of a line that ends where the input ends; `line` is what was read of it, last byte
first. -/
def ReadEvent.atEnd (line : Bytes) : ReadEvent :=
  if line.isEmpty then .endOfInput else .line (Utf8.decodeLossy line.reverse)

/-- Reads on in a line of which `line` has been read, last byte first; `pending` tells whether an
interrupt has arrived (the loop of `read_line`). -/
def readOn (pending : Bool) (line : Bytes) : List Arrival → Reading
  | [] => ⟨.atEnd line, pending, none, []⟩
  | .endOfInput :: rest => ⟨.atEnd line, pending, none, rest⟩
  | .byte b :: rest =>
    if b = 10 then ⟨.line (Utf8.decodeLossy line.reverse), pending, none, rest⟩
    else readOn pending (b :: line) rest
  | .signal interrupt :: rest =>
    if pending || interrupt then ⟨.interrupted, false, none, rest⟩
    else readOn pending line rest
  | .failed errno :: rest => ⟨.endOfInput, pending, some errno, rest⟩

/-- Reads one line, from the state of the flag and the reads to come. -/
def readLine (pending : Bool) (arrivals : List Arrival) : Reading :=
  readOn pending [] arrivals

/-- The results of reading `n` lines one after another. -/
def readLines : Nat → Bool → List Arrival → List ReadEvent
  | 0, _, _ => []
  | n + 1, pending, arrivals =>
    let reading := readLine pending arrivals
    reading.event :: readLines n reading.pending reading.rest

/-- The events up to and including the second end of input. -/
def untilSecondEnd (events : List ReadEvent) : List ReadEvent :=
  let isEnd (e : ReadEvent) := e == .endOfInput
  let first := events.takeWhile (!isEnd ·)
  let rest := (events.dropWhile (!isEnd ·)).drop 1
  first ++ .endOfInput :: rest.takeWhile (!isEnd ·) ++ [.endOfInput]

end LineShell
