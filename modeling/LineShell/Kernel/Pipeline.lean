import LineShell.Evaluation
import LineShell.Kernel.Machine

/-!
# Running commands as children

A single command is forked and waited for. The stages of a pipeline are forked from left to right,
each but the last one with a fresh pipe for its output, and then all are waited for; the pipeline's
status is that of its last stage.

Between two stages the interpreter holds one descriptor, the read end of the last pipe (`input`, or 0
before the first pipe). Each child moves it to number 0 and the write end of its own pipe to number 1,
and closes its own pipe's read end; the interpreter then closes both ends that the child has taken.
When a pipe cannot be made or a fork is refused, the interpreter closes what it holds of the pipeline and
starts no further stage, but those that it has started are still waited for.
-/

namespace LineShell

/-- A system call of the interpreter that failed. -/
inductive ProcessError where
  | fork (errno : Errno)
  | pipe (errno : Errno)
  | wait (errno : Errno)
  deriving DecidableEq, Repr

/-- The text for a failed system call. -/
def ProcessError.message : ProcessError → Text
  | .fork errno => "fork: ".toList ++ errno.describe
  | .pipe errno => "pipe: ".toList ++ errno.describe
  | .wait errno => "wait: ".toList ++ errno.describe

/-- What a child does with the words of its command. -/
abbrev ChildBody (σ : Type u) := List Text → Process → σ → ChildResult × Process × σ

variable {σ : Type u}

/-! ## Inside a child -/

/-- The descriptor table of a child that reads from `input` and writes to `pipe`; an error names the
stream that could not be put in place. -/
def Table.forStage (t : Table) (input : Nat) (pipe : Option Process.PipeEnds) :
    Except (Text × Errno) Table := do
  let t ← (t.move input 0).mapError fun errno => ("stdin".toList, errno)
  match pipe with
  | none => return t
  | some pipe => ((t.close pipe.read).move pipe.write 1).mapError fun errno => ("stdout".toList, errno)

/-- What the child of one stage does (the closure that `run_pipeline` forks). -/
def stageBody (k : Kernel σ) (body : ChildBody σ) (stage : Command) (input : Nat)
    (pipe : Option Process.PipeEnds) (p : Process) (s : σ) : ChildResult × Process × σ :=
  match p.table.forStage input pipe with
  | .ok table => body stage.words { p with table } s
  | .error (stream, errno) =>
    let message := stage.name?.getD [] ++ ": ".toList ++ stream ++ ": ".toList ++ errno.describe
    (.returned 1, p, p.write k 2 (diagnostic message) s)

namespace Machine

/-- Closes a descriptor of the interpreter (`close_fd`). -/
def close (fd : Nat) (m : Machine σ) : Machine σ :=
  { m with process := { m.process with table := m.process.table.close fd } }

/-- Closes both ends of a pipe (`Pipe::close`). -/
def closePipe (pipe : Process.PipeEnds) (m : Machine σ) : Machine σ :=
  (m.close pipe.read).close pipe.write

/-- Closes the descriptor that the next stage would have read from, if it is a pipe's. -/
def closeInput (input : Nat) (m : Machine σ) : Machine σ :=
  if input = 0 then m else m.close input

/-- Forks the child of one stage, and closes what that stage reads from. Where the fork is refused, the
pipe that the stage was to write to is closed as well. -/
def forkStage (k : Kernel σ) (body : ChildBody σ) (stage : Command) (input : Nat)
    (pipe : Option Process.PipeEnds) (m : Machine σ) : Except ProcessError Pid × Machine σ :=
  let (forked, m) := m.forkChild k (stageBody k body stage input pipe)
  let m := m.closeInput input
  match forked with
  | .ok pid => (.ok pid, m)
  | .error errno => (.error (.fork errno), pipe.elim m m.closePipe)

/-- Forks the stages of a pipeline, the first of which reads from `input` (the loop of `run_pipeline`):
the numbers of the children in order, and the failure that kept the rest from being started. -/
def forkStages (k : Kernel σ) (body : ChildBody σ) :
    List Command → Nat → Machine σ → List Pid × Option ProcessError × Machine σ
  | [], input, m => ([], none, m.closeInput input)
  | [last], input, m =>
    match m.forkStage k body last input none with
    | (.error e, m) => ([], some e, m)
    | (.ok pid, m) => ([pid], none, m)
  | stage :: next :: rest, input, m =>
    match m.process.openPipe k m.world with
    | .error errno => ([], some (.pipe errno), m.closeInput input)
    | .ok (pipe, process, world) =>
      match { m with process, world }.forkStage k body stage input (some pipe) with
      | (.error e, m) => ([], some e, m)
      | (.ok pid, m) =>
        let (pids, failure, m) := forkStages k body (next :: rest) pipe.read (m.close pipe.write)
        (pid :: pids, failure, m)

/-- The status of a pipeline: that of its last child among those reaped. -/
def pipelineStatus (pids : List Pid) (reaped : List (Pid × Status)) : Status :=
  match reaped.find? fun child => some child.1 == pids.getLast? with
  | some child => child.2
  | none => .failure

/-- Runs a pipeline: forks its stages, waits for all of them, and only then reports what kept the rest
from being started (`run_pipeline`). -/
def runPipeline (k : Kernel σ) (body : ChildBody σ) (stages : List Command) (m : Machine σ) :
    Except ProcessError Status × Machine σ :=
  let (pids, failure, m) := m.forkStages k body stages 0
  match m.waitAll k pids, failure with
  | (.error errno, m), _ => (.error (.wait errno), m)
  | (.ok _, m), some e => (.error e, m)
  | (.ok reaped, m), none => (.ok (pipelineStatus pids reaped), m)

/-- Runs one command: forks a child for it, and waits for that child (`run_simple`). -/
def runSimple (k : Kernel σ) (body : ChildBody σ) (command : Command) (m : Machine σ) :
    Except ProcessError Status × Machine σ :=
  match m.forkChild k (body command.words) with
  | (.error errno, m) => (.error (.fork errno), m)
  | (.ok pid, m) =>
    let (result, m) := m.waitFor k pid
    (result.mapError .wait, m)

/-- A failure on the interpreter's side is reported and counts as a failed command (`settle`). -/
def settle (k : Kernel σ) : Except ProcessError Status × Machine σ → Status × Machine σ
  | (.ok status, m) => (status, m)
  | (.error e, m) => (.failure, m.complain k e.message)

/-- Runs commands as children that do `body`. -/
def launcher (k : Kernel σ) (body : ChildBody σ) : Launcher (Machine σ) where
  command command m := settle k (m.runSimple k body command)
  pipeline stages m := settle k (m.runPipeline k body stages)

end Machine

end LineShell
