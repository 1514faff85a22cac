import LineShell.Utility.Basic

/-!
# Signals in scripts

Scripts name signals by number or by name, in either case of letters. Number 0 stands for the end of
the script where actions are set, and for no signal at all where signals are sent.
-/

namespace LineShell.Script

/-- The names of signals, from number 0 on. -/
def signalNames : List String :=
  ["EXIT", "HUP", "INT", "QUIT", "ILL", "TRAP", "ABRT", "BUS", "FPE", "KILL", "USR1", "SEGV", "USR2",
    "PIPE", "ALRM", "TERM", "STKFLT", "CHLD", "CONT", "STOP", "TSTP", "TTIN", "TTOU", "URG", "XCPU",
    "XFSZ", "VTALRM", "PROF", "WINCH", "IO", "PWR", "SYS"]

/-- The greatest number of a signal. -/
def lastSignal : Nat := 64

/-- The number of a signal, given by its number or its name; names count from `first` on. -/
def signalNumber? (first : Nat) (word : Bytes) : Option Nat :=
  let upper (b : UInt8) : UInt8 := if 97 ≤ b && b ≤ 122 then b - 32 else b
  match number? word with
  | some n => if n ≤ lastSignal then some n else none
  | none =>
    (signalNames.findIdx? fun name => ascii name = word.map upper).filter (first ≤ ·)

/-- The name of a signal, or its number where it has none. -/
def signalName (signal : Nat) : Bytes :=
  match signalNames[signal]? with
  | some name => ascii name
  | none => decimal signal

/-- What is said of processes that signals ended, where something is said. -/
def endings : List (Nat × String) :=
  [(1, "Hangup"), (3, "Quit"), (4, "Illegal instruction"), (5, "Trace/breakpoint trap"),
    (6, "Aborted"), (7, "Bus error"), (8, "Floating point exception"), (9, "Killed"),
    (10, "User defined signal 1"), (11, "Segmentation fault"), (12, "User defined signal 2"),
    (14, "Alarm clock"), (15, "Terminated"), (16, "Stack fault"), (24, "CPU time limit exceeded"),
    (25, "File size limit exceeded"), (26, "Virtual timer expired"), (27, "Profiling timer expired"),
    (29, "I/O possible"), (30, "Power failure"), (31, "Bad system call")]

/-- The first signal without a name of its own. -/
def firstRealTime : Nat := 34

/-- What is said of a process that a signal ended, if something is said. -/
def endedBy? (signal : Nat) : Option Bytes :=
  if firstRealTime ≤ signal then
    some (ascii "Real-time signal " ++ decimal (signal - firstRealTime : Nat))
  else (endings.lookup signal).map ascii

end LineShell.Script
