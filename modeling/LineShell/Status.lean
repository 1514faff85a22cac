import LineShell.Text.Basic

/-!
# How a command ended

`Status.ofWord` reads the 32-bit word that `wait` reports. Its low seven bits are 0 for a process that
exited, whose code is in bits 8 to 15; a signal number for one that was killed; and 127 for one that
has not ended (stopped or continued), which counts as a failure. Bit 7, which tells that memory was
dumped, is not looked at.
-/

namespace LineShell

/-- How a command ended. -/
inductive Status where
  | exited (code : Nat)
  | signaled (signal : Nat)
  deriving DecidableEq, Repr

namespace Status

/-- Ended by itself with code 0. -/
def success : Status := .exited 0

/-- What a command that could not be started or awaited counts as. -/
def failure : Status := .exited 1

/-- Only code 0 is a success; it alone lets `&&` go on. -/
def isSuccess (status : Status) : Bool :=
  status == success

/-- The number a session shows: the exit code, or 128 and the signal number (`ChildStatus::code`). -/
def code : Status → Nat
  | .exited code => code
  | .signaled signal => 128 + signal

/-- The status that a wait word stands for (`ChildStatus::from_raw`). -/
def ofWord (word : Int32) : Status :=
  let n := word.toUInt32.toNat
  if n % 128 = 0 then .exited (n / 256 % 256)
  else if n % 128 = 127 then failure
  else .signaled (n % 128)

/-- The wait word of a process that exits with a code, of which eight bits are kept. -/
def exitWord (code : Int) : Int32 :=
  Int32.ofInt (code % 256 * 256)

/-- The wait word of a process that a signal killed, without a memory dump. -/
def signalWord (signal : Nat) : Int32 :=
  Int32.ofNat (signal % 128)

end Status

end LineShell
