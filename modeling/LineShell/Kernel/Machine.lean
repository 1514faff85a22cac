import LineShell.Kernel.Launch
import LineShell.Writer

/-!
# The interpreter as a process among others

A `Machine` is the interpreter's own process, the flag by which it remembers an interrupt, its
children that have not been reaped, and the state of the system. Its operations are printing, forking
and waiting.

* Printed output is written line by line: up to the last line end at once, the rest when it is
  flushed. What cannot be written stays printed, for the next attempt.
* A forked child has copies of the descriptors and of what is printed but not yet written. The
  interpreter flushes before it forks, so that the latter is empty unless that fails.
* A child carries out its redirections and starts its program at once; the program goes on by
  itself while the interpreter waits. `await` lets it, and takes note of what happens.
* `reap` waits for a collection of children in any order of their ends. It starts over when it is
  interrupted, drops children that it was not asked for, stops early when there is no child left, and
  fails on any other failure.
-/

namespace LineShell

/-- What a signal does to the interpreter. -/
inductive Disposition where
  | ignored
  /-- The interpreter only remembers that it was interrupted. -/
  | remembered
  | fatal
  deriving DecidableEq, Repr

/-- What brings the interpreter to an end before its time. -/
inductive Halt where
  /-- A signal kills it. -/
  | signal (number : Nat)
  /-- It gives up, because what it prints cannot be written. -/
  | panic
  /-- It waits, and the wait has no end. -/
  | stuck
  deriving DecidableEq, Repr

/-- The interpreter, its children and the system. -/
structure Machine (σ : Type u) where
  process : Process
  /-- An interrupt arrived that nobody has asked about yet. -/
  interrupted : Bool
  /-- What waiting for any child will bring, in order; then there are no children. -/
  outcomes : List WaitOutcome
  /-- The number of the next child. -/
  nextPid : Pid
  /-- What each signal does to the interpreter. -/
  disposition : Nat → Disposition
  /-- What brought the interpreter to its end first, and the world at that moment. -/
  halted : Option (Halt × σ)
  /-- The state that all processes share. -/
  world : σ

/-! ## Waiting -/

/-- Waits until each of the numbers has been reaped, over the outcomes to come: the children reaped of
those asked for, in order, and the outcomes left over (the loop of `wait_all`). `none` is a wait that
these outcomes do not end. -/
def reap : List Pid → List WaitOutcome →
    Option (Except Errno (List (Pid × Status)) × List WaitOutcome)
  | [], outcomes => some (.ok [], outcomes)
  | _ :: _, [] => none
  | first :: others, .failed errno :: outcomes =>
    if errno = .interrupted then reap (first :: others) outcomes
    else if errno = .noChild then some (.ok [], outcomes)
    else some (.error errno, outcomes)
  | first :: others, .reaped pid word :: outcomes =>
    if pid ∈ first :: others then
      (reap ((first :: others).erase pid) outcomes).map fun (result, rest) =>
        (result.map fun reaped => (pid, Status.ofWord word) :: reaped, rest)
    else reap (first :: others) outcomes

/-- A wait ends at the latest where there is no child left. -/
theorem reap_isSome (pids : List Pid) (outcomes : List WaitOutcome) :
    (reap pids (outcomes ++ [.failed .noChild])).isSome := by
  induction outcomes generalizing pids with
  | nil =>
    cases pids with
    | nil => rfl
    | cons => rfl
  | cons outcome outcomes ih =>
    cases pids with
    | nil => rfl
    | cons first others =>
      cases outcome with
      | failed errno =>
        simp only [List.cons_append, reap]
        split
        · exact ih _
        · split <;> rfl
      | reaped pid word =>
        simp only [List.cons_append, reap]
        split
        · rw [Option.isSome_map]
          exact ih _
        · exact ih _

/-- Waits for one child, over the outcomes to come; the ends of other children stay where they are (the
loop of `wait_child`). -/
def reapOne (pid : Pid) : List WaitOutcome → Except Errno Status × List WaitOutcome
  | [] => (.error .noChild, [])
  | .failed errno :: outcomes =>
    if errno = .interrupted then reapOne pid outcomes else (.error errno, outcomes)
  | .reaped other word :: outcomes =>
    if other = pid then (.ok (Status.ofWord word), outcomes)
    else
      let (result, rest) := reapOne pid outcomes
      (result, .reaped other word :: rest)

namespace Machine

variable {σ : Type u}

/-! ## Signals and events -/

/-- The interpreter comes to its end, unless it has done so before. -/
def halt (reason : Halt) (m : Machine σ) : Machine σ :=
  { m with halted := m.halted.or (some (reason, m.world)) }

/-- A signal reaches the interpreter. One that is remembered also breaks a wait off. -/
def receive (signal : Nat) (m : Machine σ) : Machine σ :=
  match m.disposition signal with
  | .ignored => m
  | .remembered =>
    { m with interrupted := true, outcomes := m.outcomes ++ [.failed .interrupted] }
  | .fatal => m.halt (.signal signal)

/-- Takes note of an event. -/
def observe (m : Machine σ) : Event → Machine σ
  | .ended pid word => { m with outcomes := m.outcomes ++ [.reaped pid word] }
  | .signal number => m.receive number
  | .stuck => m.halt .stuck

/-- Lets the children go on to their ends. -/
def await (k : Kernel σ) (m : Machine σ) : Machine σ :=
  let (events, world) := k.await (fun signal => m.disposition signal == .fatal) m.process m.world
  events.foldl observe { m with world }

/-! ## Reaping -/

/-- Waits for a collection of children; for none, there is nothing to wait for (`wait_all`). -/
def waitAll (k : Kernel σ) (pids : List Pid) (m : Machine σ) :
    Except Errno (List (Pid × Status)) × Machine σ :=
  match pids with
  | [] => (.ok [], m)
  | pids =>
    let m := m.await k
    let (result, rest) := (reap pids (m.outcomes ++ [.failed .noChild])).get (reap_isSome pids m.outcomes)
    (result, { m with outcomes := rest.dropLast })

/-- Waits for one child (`wait_child`). -/
def waitFor (k : Kernel σ) (pid : Pid) (m : Machine σ) : Except Errno Status × Machine σ :=
  let m := m.await k
  let (result, outcomes) := reapOne pid m.outcomes
  (result, { m with outcomes })

/-! ## Printing -/

/-- Writes out what has been printed, as far as that is possible. -/
def flush (k : Kernel σ) (m : Machine σ) : Machine σ :=
  let (process, world) := m.process.flush k m.world
  { m with process, world }

/-- Why what has been printed cannot be written out now. -/
def flushFault? (k : Kernel σ) (m : Machine σ) : Option Errno :=
  m.process.flushFault? k m.world

/-- Puts bytes behind what has been printed. -/
def hold (bytes : Bytes) (m : Machine σ) : Machine σ :=
  { m with process := { m.process with output := m.process.output ++ bytes } }

/-- Writes out what has been printed, and then puts bytes behind it. Where not all can be written, this
tells why; then the bytes are not printed. -/
def flushThen (k : Kernel σ) (bytes : Bytes) (m : Machine σ) : Option Errno × Machine σ :=
  match m.flushFault? k with
  | some errno => (some errno, m.flush k)
  | none => (none, (m.flush k).hold bytes)

/-- Prints bytes to standard output: whole lines are written at once, and what comes after them is kept
back. So is what a failure has left of lines; but lines that nothing was printed before are lost. -/
def writeOut (k : Kernel σ) (bytes : Bytes) (m : Machine σ) : Option Errno × Machine σ :=
  let tail := (bytes.reverse.takeWhile (· != 10)).reverse
  let lines := bytes.take (bytes.length - tail.length)
  if lines.isEmpty then
    if m.process.output.getLast? = some 10 then m.flushThen k tail else (none, m.hold tail)
  else
    let (fault, next) := (m.hold lines).flushThen k tail
    if fault.isSome && m.process.output.isEmpty then
      (fault, { next with process := { next.process with output := [] } })
    else (fault, next)

/-- Standard output as the interpreter's built-in commands write to it. -/
def output (k : Kernel σ) : Writer (Machine σ) where
  write := writeOut k
  flush m := (m.flushFault? k, m.flush k)

/-- Prints to standard output, and gives up where that fails; what can still be written then is. -/
def print (k : Kernel σ) (bytes : Bytes) (m : Machine σ) : Machine σ :=
  match m.writeOut k bytes with
  | (none, m) => m
  | (some _, m) => (m.flush k).halt .panic

/-- Writes to a descriptor past the printed output. -/
def write (k : Kernel σ) (fd : Nat) (bytes : Bytes) (m : Machine σ) : Machine σ :=
  { m with world := m.process.write k fd bytes m.world }

/-- Writes a diagnostic to standard error. -/
def complain (k : Kernel σ) (message : Text) (m : Machine σ) : Machine σ :=
  m.write k 2 (diagnostic message)

/-! ## Forking -/

/-- What a child is when it is forked: it has copies of the interpreter's descriptors and of what is
printed but not yet written. -/
def child (m : Machine σ) : Process :=
  { m.process with pid := m.nextPid, parent := m.process.pid }

/-- Forks a child, which does `body`, from the interpreter as it is. -/
def fork (k : Kernel σ) (body : Process → σ → ChildResult × Process × σ) (m : Machine σ) :
    Pid × Machine σ :=
  let (word, world) := Process.finish k (body m.child m.world)
  let ended := word.elim [] fun word => [WaitOutcome.reaped m.nextPid word]
  (m.nextPid, { m with world, outcomes := m.outcomes ++ ended, nextPid := m.nextPid + 1 })

/-- Flushes and then forks a child, which does `body`, if the system lets it (`fork_child`). -/
def forkChild (k : Kernel σ) (body : Process → σ → ChildResult × Process × σ) (m : Machine σ) :
    Except Errno Pid × Machine σ :=
  let m := m.flush k
  match k.fork m.process m.world with
  | .error errno => (.error errno, m)
  | .ok world =>
    let (pid, m) := { m with world }.fork k body
    (.ok pid, m)

end Machine

end LineShell
