import LineShell.Kernel.Host
import LineShell.Proofs.Kernel.Machine
import LineShell.Proofs.Redirect.Apply

/-!
# What every call of a child keeps

A predicate on the state that processes share, which every call of a child keeps, is kept by a child
that carries its command out (`runCommand_keeps`), by forking one (`fork_keeps`), and by starting a stage
of a pipeline (`startStage_keeps`).
-/

namespace LineShell

variable {σ : Type u}

/-- Opening files keeps a predicate on the shared state. -/
structure Kernel.KeepsOpening (k : Kernel σ) (P : σ → Prop) : Prop where
  openFile : ∀ {p direction path s handle s'},
    k.openFile p direction path s = .ok (handle, s') → P s → P s'

/-- Opening files, writing and forking keep it. -/
structure Kernel.Keeps (k : Kernel σ) (P : σ → Prop) : Prop extends k.KeepsOpening P where
  write : ∀ handle bytes s, P s → P (k.write handle bytes s)
  fork : ∀ {p s s'}, k.fork p s = .ok s' → P s → P s'

/-- Starting a program keeps it as well. -/
structure Kernel.KeepsAll (k : Kernel σ) (P : σ → Prop) : Prop extends k.Keeps P where
  start : ∀ {words p s s'}, k.start words p s = .ok s' → P s → P s'

section

variable {k : Kernel σ} {P : σ → Prop}

theorem Process.write_keeps (h : k.Keeps P) (p : Process) (fd : Nat) (bytes : Bytes) {s : σ}
    (hs : P s) : P (p.write k fd bytes s) := by
  unfold write
  split
  · exact h.write _ _ s hs
  · exact hs

theorem Process.flush_keeps (h : k.Keeps P) (p : Process) {s : σ} (hs : P s) :
    P (p.flush k s).2 := by
  unfold flush
  split
  · exact hs
  · exact write_keeps h p 1 _ hs

theorem Redirect.apply_keeps (h : k.KeepsOpening P) (r : Redirect) (p : Process) {s : σ} (hs : P s) :
    P (r.apply k p s).2.2 := by
  rcases apply_cases k r p s with ⟨failure, -, happly⟩ | ⟨handle, fd, table, s', hfile, -, happly⟩
  · rw [happly]
    exact hs
  · rw [happly]
    exact h.openFile hfile hs

theorem Redirect.applyAll_keeps (h : k.KeepsOpening P) (redirects : List Redirect) (p : Process) {s : σ}
    (hs : P s) : P (applyAll k redirects p s).2.2 := by
  induction redirects generalizing p s with
  | nil => exact hs
  | cons r rest ih =>
    have happly := apply_keeps h r p hs
    rw [applyAll]
    generalize r.apply k p s = applied at happly ⊢
    obtain ⟨result, p', s'⟩ := applied
    cases result with
    | error e => exact happly
    | ok done => exact ih p' happly

theorem resolve_keeps (h : k.KeepsOpening P) (words : List Text) (p : Process) {s : σ} (hs : P s) :
    P (resolve k words p s).2.2 := by
  unfold resolve
  split
  · exact hs
  · exact Redirect.applyAll_keeps h _ p hs

/-- A program that could be started was asked for with the descriptors that stay open. -/
theorem Process.launch_eq_ok {words : List Text} {p : Process} {s s' : σ}
    (h : p.launch k words s = .ok s') :
    k.start words { p with table := p.table.forExec } s = .ok s' := by
  unfold launch at h
  split at h
  · exact absurd h (by simp)
  · split at h
    · exact absurd h (by simp)
    · rename_i command rest _
      cases hstart : k.start (command :: rest) { p with table := p.table.forExec } s with
      | error errno =>
        rw [hstart] at h
        change Except.error _ = _ at h
        exact absurd h (by simp)
      | ok s₁ =>
        rw [hstart] at h
        obtain rfl := Except.ok.inj h
        rfl

/-- **A child that carries its command out keeps what its calls keep.** -/
theorem Process.runCommand_keeps (h : k.KeepsAll P) (words : List Text) (p : Process) {s : σ}
    (hs : P s) : P (p.runCommand k words s).2.2 := by
  have hresolve := resolve_keeps h.toKeepsOpening words p hs
  unfold runCommand
  generalize resolve k words p s = resolved at hresolve ⊢
  obtain ⟨result, p', s'⟩ := resolved
  cases result with
  | error e => exact write_keeps h.toKeeps p' 2 _ hresolve
  | ok args =>
    cases args with
    | nil => exact hresolve
    | cons command rest =>
      simp only
      split
      · rename_i hlaunch
        exact h.start (launch_eq_ok hlaunch) hresolve
      · exact write_keeps h.toKeeps p' 2 _ hresolve

theorem Process.finish_keeps (h : k.Keeps P) {ran : ChildResult × Process × σ} (hran : P ran.2.2) :
    P (finish k ran).2 := by
  obtain ⟨result, p, s⟩ := ran
  cases result with
  | replaced => exact hran
  | returned code => exact flush_keeps h p hran

/-- What is kept by what the children do is kept by forking them. -/
theorem Machine.fork_keeps (h : k.Keeps P) {body : Process → σ → ChildResult × Process × σ}
    (hbody : ∀ p s, P s → P (body p s).2.2) {m : Machine σ} (hm : P m.world) :
    P (m.fork k body).2.world :=
  Process.finish_keeps h (hbody m.child m.world hm)

/-- Flushing keeps it, and so does what the system does where it grants a fork. -/
theorem Machine.granted_keeps (h : k.Keeps P) {m : Machine σ} {world : σ} (hfork : m.Grants k world)
    (hm : P m.world) : P (m.granted k world).world :=
  h.fork hfork (Process.flush_keeps h m.process hm)

theorem stageBody_keeps (h : k.Keeps P) {body : ChildBody σ}
    (hbody : ∀ words p s, P s → P (body words p s).2.2) (stage : Command) (input : Nat)
    (pipe : Option Process.PipeEnds) (p : Process) {s : σ} (hs : P s) :
    P (stageBody k body stage input pipe p s).2.2 := by
  unfold stageBody
  split
  · exact hbody _ _ s hs
  · exact Process.write_keeps h p 2 _ hs

/-- What is kept by what the children do is kept by starting a stage. -/
theorem Machine.startStage_keeps (h : k.Keeps P) (body : ChildBody σ)
    (hbody : ∀ words p s, P s → P (body words p s).2.2) (stage : Command) (input : Nat)
    (pipe : Option Process.PipeEnds) {m : Machine σ} {world : σ} (hfork : m.Grants k world)
    (hm : P m.world) : P (m.startStage k body stage input pipe world).world := by
  rw [startStage_world]
  exact fork_keeps h (fun p s hs => stageBody_keeps h hbody stage input pipe p hs)
    (granted_keeps h hfork hm)

end

end LineShell
