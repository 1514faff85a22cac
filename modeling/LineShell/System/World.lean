import LineShell.System.Executable
import LineShell.System.Program

/-!
# Processes side by side

A `World` is a system with the processes whose programs run on it, and a clock. `World.await` lets the
programs go on. Whoever may go on earliest goes first, and goes on until it has to wait for something,
for others or for a time to come; of several that may go on at the same time the one that was started
first does. Only starting programs and sleeping take time.

* A process whose call has to wait tries again when others have gone on.
* A process that comes to its end leaves its wait word for its parent. What it held open is closed.
* Where nobody may go on although the interpreter still waits for a child, the wait is stuck.
* A signal ends a process, unless it is ignored or caught, or is of a kind that does nothing by itself;
  the one that can be neither ignored nor caught always does. Caught signals wait until they are asked
  for.
* A program that is started in the place of another one keeps the number, the descriptors and the
  ignored signals of the process.
-/

namespace LineShell

/-- A process with what it is going to do, and the time from which it may go on. -/
structure Job where
  caller : Caller
  program : Program
  wake : Nat
  /-- It was stopped, and waits for being told to go on. -/
  stopped : Bool
  /-- The interpreter started it, and not some program. -/
  own : Bool

/-- The number of a job's process. -/
def Job.pid (j : Job) : Pid := j.caller.process.pid

/-- A process that has come to its end and was not waited for. -/
structure Remains where
  pid : Pid
  parent : Pid
  word : Int32

/-- The processes, in the order in which they were started; no two have the same number. -/
structure Jobs where
  list : List Job
  /-- The number of the next process that a program starts. -/
  next : Pid
  nodup : (list.map Job.pid).Nodup
  below : ∀ job ∈ list, job.pid < next

namespace Jobs

/-- No processes; programs number those that they start from here on. -/
def empty (next : Pid) : Jobs := ⟨[], next, .nil, by simp⟩

/-- A list of jobs with one in the place of that of its number. -/
def replace (job : Job) (list : List Job) : List Job :=
  list.map fun other => if other.pid = job.pid then job else other

theorem pids_replace (job : Job) (list : List Job) : (replace job list).map Job.pid = list.map Job.pid := by
  unfold replace
  rw [List.map_map]
  apply List.map_congr_left
  intro other _
  by_cases h : other.pid = job.pid
  · simp [h]
  · simp [h]

/-- The processes with one in the place of that of its number, or as a new one. -/
def put (jobs : Jobs) (job : Job) : Jobs where
  list := if jobs.list.any (·.pid = job.pid) then replace job jobs.list else jobs.list ++ [job]
  next := max jobs.next (job.pid + 1)
  nodup := by
    split
    · rw [pids_replace]
      exact jobs.nodup
    · rename_i hnew
      have hfresh : job.pid ∉ jobs.list.map Job.pid := by simpa using hnew
      rw [List.map_append]
      exact List.nodup_append.mpr ⟨jobs.nodup, by simp, by
        rintro pid hpid other hother rfl
        exact hfresh (List.mem_singleton.mp hother ▸ hpid)⟩
  below := by
    intro other hother
    have hpids : other.pid ∈ jobs.list.map Job.pid ∨ other.pid = job.pid := by
      have hpid := List.mem_map_of_mem (f := Job.pid) hother
      split at hpid
      · rw [pids_replace] at hpid
        exact .inl hpid
      · rw [List.map_append] at hpid
        simpa using hpid
    rcases hpids with hpid | hpid
    · obtain ⟨old, hold, heq⟩ := List.mem_map.mp hpid
      have hlt : other.pid < jobs.next := heq ▸ jobs.below old hold
      exact Nat.lt_of_lt_of_le hlt (Nat.le_max_left _ _)
    · rw [hpid]
      exact Nat.lt_of_lt_of_le (Nat.lt_succ_self _) (Nat.le_max_right _ _)

/-- The processes without that of a number. -/
def remove (jobs : Jobs) (pid : Pid) : Jobs where
  list := jobs.list.filter (·.pid != pid)
  next := jobs.next
  nodup := jobs.nodup.sublist (List.filter_sublist.map Job.pid)
  below job h := jobs.below job (List.mem_filter.mp h).1

end Jobs

/-- A system with the processes on it. -/
structure World where
  system : System
  jobs : Jobs
  ended : List Remains
  /-- The time, in millionths of a second. -/
  clock : Nat
  /-- Names and values that the interpreter hands on to the programs it starts. -/
  environment : List (Bytes × Bytes)

/-- What programs do, by their names: given the words that they are started with, they are pieces of a
program that bring an exit code. -/
abbrev Catalogue := String → Utility

namespace World

/-- Programs number the processes they start from here on, above those that the interpreter starts. -/
def firstPid : Pid := 4194304

/-- A world without processes. -/
def ofSystem (system : System) (environment : List (Bytes × Bytes)) : World :=
  ⟨system, .empty firstPid, [], 0, environment⟩

/-- How long a program takes to start. -/
def startTime : Nat := 1000

/-- How long the interpreter takes to start a process. -/
def forkTime : Nat := 150

/-- Signals that do nothing by themselves. -/
def harmless : List Nat := [0, 17, 18, 20, 21, 22, 23, 28]

/-- The signal that can be neither ignored nor caught. -/
def killSignal : Nat := 9

/-- The signal that stops a process, whatever that wants. -/
def stopSignal : Nat := 19

/-- The signal that lets a stopped process go on. -/
def continueSignal : Nat := 18

/-! ## Descriptors -/

/-- A table has a descriptor that leads to a handle. -/
def holds (t : Table) (h : Handle) : Bool :=
  t.slots.any fun slot => slot.any (·.handle == h)

/-- Some process, the interpreter's included, has a descriptor that leads to a handle. -/
def isHeld (w : World) (interpreter : Process) (h : Handle) : Bool :=
  holds interpreter.table h || w.jobs.list.any fun job => holds job.caller.process.table h

/-! ## Jobs -/

/-- The file tree as a process sees it. -/
def filesOf (w : World) (caller : Caller) : FileTree :=
  { w.system.files with current := caller.directory, mask := caller.mask }

/-- The world with another state of a job. -/
def setJob (w : World) (job : Job) : World :=
  { w with jobs := w.jobs.put job }

/-- A job comes to its end. -/
def finish (w : World) (job : Job) (word : Int32) : World × List Event :=
  let w := { w with jobs := w.jobs.remove job.pid }
  if job.own then (w, [.ended job.pid word])
  else ({ w with ended := w.ended ++ [⟨job.pid, job.caller.process.parent, word⟩] }, [])

/-- Puts a program in the place of a process, which may be a new one; `own` tells whether the interpreter
started the process. -/
def start (w : World) (catalogue : Catalogue) (own : Bool) (caller : Caller) (image : Image) (time : Nat) :
    World :=
  let process := { caller.process with table := caller.process.table.forExec, output := [] }
  let caller := { caller with process, caught := [], arrived := [], lostOutput := false }
  w.setJob ⟨caller, (catalogue image.program image.words).toProgram, time + startTime, false, own⟩

/-- A signal reaches a job. -/
def signalJob (w : World) (job : Job) (signal : Nat) : World × List Event :=
  let caller := job.caller
  let job := { job with stopped := job.stopped && signal != continueSignal }
  let w := w.setJob job
  if signal = stopSignal then (w.setJob { job with stopped := true }, [])
  else if signal != killSignal && caller.ignored.contains signal then (w, [])
  else if signal != killSignal && caller.caught.contains signal then
    (w.setJob { job with caller := { caller with arrived := caller.arrived ++ [signal] } }, [])
  else if harmless.contains signal then (w, [])
  else w.finish job (Status.signalWord signal)

/-- A signal is sent to a process, if there is one. -/
def signal (w : World) (interpreter pid : Pid) (signal : Nat) : World × List Event :=
  if pid = interpreter then (w, if signal = 0 then [] else [.signal signal])
  else
    match w.jobs.list.find? (·.pid = pid) with
    | some job => w.signalJob job signal
    | none => (w, [])

/-- A job makes its next step, if it need not wait. -/
def stepJob (w : World) (catalogue : Catalogue) (interpreter : Process) (job : Job) :
    Option (World × List Event) :=
  let time := max w.clock job.wake
  let w := { w with clock := time }
  let goOn (program : Program) (w : World) : World := w.setJob { job with program }
  match job.program with
  | .exit word => some (w.finish job word)
  | .call attempt =>
    let files := w.filesOf job.caller
    match attempt ⟨job.caller, { w.system with files }, w.isHeld interpreter⟩ with
    | none => none
    | some (program, caller, system) =>
      let { current, mask, .. } := w.system.files
      let { pid, parent, .. } := job.caller.process
      let process := { caller.process with pid, parent }
      let caller := { caller with process, directory := system.files.current, mask := system.files.mask }
      let system := { system with files := { system.files with current, mask } }
      some ({ w with system }.setJob { job with caller, program }, [])
  | .sleep duration next => some (w.setJob { job with program := next, wake := time + duration }, [])
  | .fork child next =>
    let pid := w.jobs.next
    let process := { job.caller.process with pid, parent := job.pid }
    let caller := { job.caller with process, caught := [], arrived := [] }
    some ((goOn (next pid) w).setJob ⟨caller, child, time, false, false⟩, [])
  | .wait child next =>
    match w.ended.find? fun other => other.pid = child && other.parent = job.pid with
    | some remains =>
      let w := { w with ended := w.ended.filter (·.pid != child) }
      some (goOn (next remains.word) w, [])
    | none =>
      if w.jobs.list.any fun other => other.pid = child && other.caller.process.parent = job.pid then none
      else some (goOn (next (Status.exitWord 127)) w, [])
  | .kill target number next =>
    let found := target = interpreter.pid || w.jobs.list.any (·.pid = target) ||
      w.ended.any (·.pid = target)
    some ((goOn (next found) w).signal interpreter.pid target number)
  | .exec directories words next =>
    match load (w.filesOf job.caller) directories words with
    | .ok image => some (w.start catalogue job.own job.caller image time, [])
    | .error errno => some (goOn (next errno) w, [])

/-! ## The clock -/

/-- The jobs that are not stopped, in the order in which they may go on. -/
def inOrder (jobs : List Job) : List Job :=
  (jobs.filter (!·.stopped)).mergeSort fun a b => a.wake ≤ b.wake

/-- The first job that can make a step makes it. -/
def step (w : World) (catalogue : Catalogue) (interpreter : Process) : Option (World × List Event) :=
  (inOrder w.jobs.list).findSome? (w.stepJob catalogue interpreter)

/-- Some process is a child of the interpreter. -/
def isAwaited (w : World) : Bool :=
  w.jobs.list.any (·.own)

/-- The bound on the steps of one wait. -/
def patience : Nat := 1000000000000

/-- How much longer processes go on when nobody waits for them any more. -/
def lingering : Nat := 100

/-- Lets the programs go on until no child of the interpreter is left, or until a fatal signal reaches
the interpreter: what happened to it, in order. Other processes may go on a little longer. -/
def await (catalogue : Catalogue) (fatal : Nat → Bool) (interpreter : Process) (w : World) :
    List Event × World :=
  go patience none [] w
where
  /-- The event is a fatal signal. -/
  isFatal : Event → Bool
    | .signal number => fatal number
    | _ => false
  /-- The wait comes to nothing more. -/
  stop (events : List Event) (w : World) : List Event × World :=
    ((if w.isAwaited then .stuck :: events else events).reverse, w)
  /-- Makes at most so many steps, up to the deadline if there is one yet; what happened comes last one
  first. -/
  go : Nat → Option Nat → List Event → World → List Event × World
    | 0, _, events, w => stop events w
    | more + 1, deadline, events, w =>
      match w.step catalogue interpreter with
      | none => stop events w
      | some (next, happened) =>
        let isLast := !w.isAwaited || events.head?.any isFatal
        let deadline := deadline.or (if isLast then some (w.clock + lingering) else none)
        if deadline.any (· < next.clock) then (events.reverse, w)
        else go more deadline (happened.reverse ++ events) next

end World

end LineShell
