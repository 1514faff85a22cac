import LineShell.Errno
import LineShell.Text.Utf8

/-!
# Where output goes

A `Writer` is a place for output as a part of some state. It takes bytes, all of them or else it tells why
not, and it may hold back what it has taken until it is flushed, which may fail as well.
-/

namespace LineShell

/-- A place for output; a call that fails tells why. -/
structure Writer (W : Type u) where
  write : Bytes → W → Option Errno × W
  flush : W → Option Errno × W

namespace Writer

variable {W : Type u}

/-- Writes texts one after another, up to the first that is not taken. -/
def writeAll (out : Writer W) : List Text → W → Option Errno × W
  | [], w => (none, w)
  | text :: rest, w =>
    match out.write (Utf8.encode text) w with
    | (none, w) => out.writeAll rest w
    | failed => failed

/-- Writes texts one after another and then flushes, up to the first failure. -/
def print (out : Writer W) (texts : List Text) (w : W) : Option Errno × W :=
  match out.writeAll texts w with
  | (none, w) => out.flush w
  | failed => failed

end Writer

end LineShell
