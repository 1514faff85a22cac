import LineShell.Proofs.Kernel.Keep

/-!
# What a system is trusted with

A `Kernel` says how the system calls act on the state that processes share, and nothing about them. The
properties of pipelines that depend on what the system does name it here.

* `Kernel.PipeLaws`: a new pipe is not one of those in use, those in use stay so, and a file that turns
  out to be a pipe is opened at the end that its direction asks for.
* `Kernel.ChildLaws`: a program that is started runs, one that runs comes to its end once, and waiting
  goes on until no child is left, the interpreter is killed, or the wait is stuck.
* `Kernel.bench` is a system small enough to compute with that obeys both: `bench_pipeLaws`,
  `bench_childLaws`. `Kernel.crowded` is the same with a bound on how many programs may run.
-/

namespace LineShell

variable {σ : Type u}

/-! ## Pipes -/

/-- What a kernel does about pipes; `used` tells the numbers that are in use. -/
structure Kernel.PipeLaws (k : Kernel σ) (used : σ → Nat → Prop) : Prop where
  fresh : ∀ {s id s'}, k.newPipe s = .ok (id, s') → ¬ used s id
  made : ∀ {s id s'}, k.newPipe s = .ok (id, s') → used s' id
  kept : ∀ {s id s' other}, k.newPipe s = .ok (id, s') → used s other → used s' other
  keeps : ∀ id, k.KeepsAll fun s => used s id
  side : ∀ {p direction path s id side s'},
    k.openFile p direction path s = .ok (.pipe id side, s') → (side = .read ↔ direction = .input)

/-! ## Children -/

/-- The child that an event tells the end of. -/
def Event.pid? : Event → Option Pid
  | .ended pid _ => some pid
  | _ => none

/-- The children that come to their ends, in order. -/
def endedPids (events : List Event) : List Pid := events.filterMap (·.pid?)

@[simp] theorem endedPids_append (first second : List Event) :
    endedPids (first ++ second) = endedPids first ++ endedPids second :=
  List.filterMap_append

/-- What a kernel does about the children of a process; `running` tells those whose programs run. -/
structure Kernel.ChildLaws (k : Kernel σ) (interpreter : Pid) (running : σ → List Pid) : Prop where
  keeps : ∀ pids, k.Keeps fun s => (running s).Perm pids
  newPipe : ∀ {s id s'}, k.newPipe s = .ok (id, s') → (running s').Perm (running s)
  start : ∀ {words p s s'}, k.start words p s = .ok s' → p.parent = interpreter →
    p.pid ∉ running s → (running s').Perm (p.pid :: running s)
  await : ∀ fatal p s, p.pid = interpreter →
    (endedPids (k.await fatal p s).1 ++ running (k.await fatal p s).2).Perm (running s)
  drained : ∀ fatal p s, p.pid = interpreter →
    (∀ number, .signal number ∈ (k.await fatal p s).1 → fatal number = false) →
    .stuck ∉ (k.await fatal p s).1 → running (k.await fatal p s).2 = []

/-! ## A small system -/

/-- A system that remembers only how many pipes there are, how many more there can be, and whose programs
run. -/
structure Bench where
  made : Nat
  spare : Nat
  /-- The one that was started last comes first. -/
  running : List Pid

/-- Programs do nothing, and end in the opposite order to that in which they were started, each with its
number for an exit code and followed by an interrupt. -/
def Kernel.bench : Kernel Bench where
  openFile _ _ path s := .ok (.file path.length, s)
  newPipe s :=
    if s.spare = 0 then .error .tooManyOpen
    else .ok (s.made, { s with made := s.made + 1, spare := s.spare - 1 })
  write _ _ s := s
  start _ p s := .ok { s with running := p.pid :: s.running }
  await _ _ s :=
    (s.running.flatMap fun pid => [.ended pid (Status.exitWord pid), .signal 2],
      { s with running := [] })

/-- An interpreter on a bench, whose standard streams are files and who survives every signal. -/
def Bench.machine (spare : Nat) (running : List Pid) : Machine Bench where
  process := ⟨2, 1, ⟨[0, 1, 2].map fun id => some ⟨.file id, false⟩, 8⟩, []⟩
  interrupted := false
  outcomes := []
  nextPid := 10
  disposition _ := .remembered
  halted := none
  world := ⟨0, spare, running⟩

/-- A pipe on a bench is the next one. -/
theorem Kernel.bench_newPipe {s s' : Bench} {id : Nat} (h : bench.newPipe s = .ok (id, s')) :
    id = s.made ∧ s' = { s with made := s.made + 1, spare := s.spare - 1 } := by
  unfold bench at h
  simp only at h
  split at h
  · exact absurd h (by simp)
  · obtain ⟨rfl, rfl⟩ := Prod.mk.inj (Except.ok.inj h)
    exact ⟨rfl, rfl⟩

/-- Opening files and writing change nothing on a bench. -/
theorem Kernel.bench_keeps (P : Bench → Prop) : bench.Keeps P where
  openFile h hs := by
    obtain ⟨-, rfl⟩ := Prod.mk.inj (Except.ok.inj h)
    exact hs
  write _ _ _ hs := hs
  fork h hs := by
    obtain rfl := Except.ok.inj h
    exact hs

theorem Kernel.bench_pipeLaws : bench.PipeLaws fun s id => id < s.made where
  fresh h := by
    obtain ⟨rfl, -⟩ := bench_newPipe h
    exact Nat.lt_irrefl _
  made h := by
    obtain ⟨rfl, rfl⟩ := bench_newPipe h
    exact Nat.lt_succ_self _
  kept h hother := by
    obtain ⟨-, rfl⟩ := bench_newPipe h
    exact Nat.lt_succ_of_lt hother
  keeps id :=
    { bench_keeps _ with
      start := fun h hs => by
        obtain rfl := Except.ok.inj h
        exact hs }
  side h := by
    obtain ⟨h, -⟩ := Prod.mk.inj (Except.ok.inj h)
    exact absurd h (by simp)

theorem Kernel.bench_childLaws (interpreter : Pid) : bench.ChildLaws interpreter Bench.running where
  keeps _ := bench_keeps _
  newPipe h := by
    obtain ⟨-, rfl⟩ := bench_newPipe h
    exact .refl _
  start h _ _ := by
    obtain rfl := Except.ok.inj h
    exact .refl _
  await _ _ s _ := by
    have hended (pids : List Pid) : endedPids (pids.flatMap fun pid =>
        [.ended pid (Status.exitWord pid), .signal 2]) = pids := by
      induction pids with
      | nil => rfl
      | cons pid rest ih => exact congrArg (pid :: ·) ih
    change (endedPids (s.running.flatMap _) ++ []).Perm s.running
    rw [hended, List.append_nil]
  drained _ _ _ _ _ _ := rfl

/-- A bench on which only so many programs may run: a fork beyond that is refused. -/
def Kernel.crowded (bound : Nat) : Kernel Bench :=
  { bench with fork := fun _ s => if s.running.length < bound then .ok s else .error .tryAgain }

/-- A fork that is granted changes nothing on a crowded bench. -/
theorem Kernel.crowded_fork {bound : Nat} {p : Process} {s s' : Bench}
    (h : (crowded bound).fork p s = .ok s') : s' = s := by
  unfold crowded at h
  simp only at h
  split at h
  · exact (Except.ok.inj h).symm
  · exact absurd h (by simp)

theorem Kernel.crowded_keeps (bound : Nat) (P : Bench → Prop) : (crowded bound).Keeps P where
  openFile := @KeepsOpening.openFile _ bench _ (bench_keeps P).toKeepsOpening
  write := (bench_keeps P).write
  fork h hs := by
    obtain rfl := crowded_fork h
    exact hs

theorem Kernel.crowded_childLaws (bound : Nat) (interpreter : Pid) :
    (crowded bound).ChildLaws interpreter Bench.running where
  keeps _ := crowded_keeps bound _
  newPipe := (bench_childLaws interpreter).newPipe
  start := @ChildLaws.start _ bench _ _ (bench_childLaws interpreter)
  await := (bench_childLaws interpreter).await
  drained := (bench_childLaws interpreter).drained

end LineShell
