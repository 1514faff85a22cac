import LineShell.Proofs.Attempt
import LineShell.Proofs.Kernel.Chronicle
import LineShell.Proofs.Kernel.Projection

/-!
# Writing down what reaches a system

`Kernel.recorded` does what another kernel does, and keeps a list of all that reaches it: what the
interpreter and its children write, and what programs are said to write while the interpreter waits.

* `Kernel.Projects.childLaws`: whatever projects to a kernel that does right by children does so itself.
* `Kernel.recorded_projects`: but for the list, nothing is different.
* `Kernel.recorded_childLaws`, `Kernel.recorded_speechLaws`: so a recorded kernel is one for chronicles,
  whatever account is given of what programs write, as long as it speaks of those that run.
-/

namespace LineShell

variable {τ : Type u} {σ : Type v}

/-! ## Laws over a projection -/

namespace Kernel.Projects

variable {f : τ → σ} {above : Kernel τ} {below : Kernel σ}

theorem openFile_ok (h : above.Projects f below) {p : Process} {direction : Direction} {path : Text}
    {t t' : τ} {handle : Handle} (hopen : above.openFile p direction path t = .ok (handle, t')) :
    below.openFile p direction path (f t) = .ok (handle, f t') := by
  rw [← h.openFile, hopen]
  rfl

theorem newPipe_ok (h : above.Projects f below) {t t' : τ} {id : Nat}
    (hnew : above.newPipe t = .ok (id, t')) : below.newPipe (f t) = .ok (id, f t') := by
  rw [← h.newPipe, hnew]
  rfl

theorem fork_ok (h : above.Projects f below) {p : Process} {t t' : τ}
    (hfork : above.fork p t = .ok t') : below.fork p (f t) = .ok (f t') := by
  rw [← h.fork, hfork]
  rfl

theorem start_ok (h : above.Projects f below) {words : List Text} {p : Process} {t t' : τ}
    (hstart : above.start words p t = .ok t') : below.start words p (f t) = .ok (f t') := by
  rw [← h.start, hstart]
  rfl

theorem keeps (h : above.Projects f below) {P : σ → Prop} (hkeeps : below.Keeps P) :
    above.Keeps fun t => P (f t) where
  openFile hopen ht := hkeeps.openFile (h.openFile_ok hopen) ht
  write handle bytes t ht := h.write handle bytes t ▸ hkeeps.write handle bytes (f t) ht
  fork hfork ht := hkeeps.fork (h.fork_ok hfork) ht

/-- **What holds of children over the smaller state holds of them over the larger one.** -/
theorem childLaws (h : above.Projects f below) {interpreter : Pid} {running : σ → List Pid}
    (laws : below.ChildLaws interpreter running) :
    above.ChildLaws interpreter fun t => running (f t) where
  keeps pids := h.keeps (laws.keeps pids)
  newPipe hnew := laws.newPipe (h.newPipe_ok hnew)
  start hstart hparent hpid := laws.start (h.start_ok hstart) hparent hpid
  await fatal p t hp := by
    obtain ⟨hevents, hworld⟩ := Prod.mk.inj (h.await fatal p t)
    rw [hevents, hworld]
    exact laws.await fatal p (f t) hp
  drained fatal p t hp hsignals hstuck := by
    obtain ⟨hevents, hworld⟩ := Prod.mk.inj (h.await fatal p t)
    rw [hevents] at hsignals hstuck
    rw [hworld]
    exact laws.drained fatal p (f t) hp hsignals hstuck

end Kernel.Projects

/-! ## The record -/

/-- An account of what programs write while the interpreter waits. -/
abbrev Account (σ : Type v) := (Nat → Bool) → Process → σ → List (Pid × Bytes)

/-- A kernel with a list of all that reaches it; `account` tells what programs write. -/
def Kernel.recorded (k : Kernel σ) (account : Account σ) : Kernel (σ × List Receipt) where
  openFile p direction path s :=
    (k.openFile p direction path s.1).map fun (handle, world) => (handle, world, s.2)
  newPipe s := (k.newPipe s.1).map fun (id, world) => (id, world, s.2)
  write handle bytes s := (k.write handle bytes s.1, s.2 ++ [.written handle bytes])
  fault handle bytes s := k.fault handle bytes s.1
  fork p s := (k.fork p s.1).map (·, s.2)
  start words p s := (k.start words p s.1).map (·, s.2)
  await fatal p s :=
    let (events, world) := k.await fatal p s.1
    (events, world, s.2 ++ heardFrom (spokenBy (account fatal p s.1)))

section

variable (k : Kernel σ) (account : Account σ)

theorem Kernel.recorded_projects : (k.recorded account).Projects Prod.fst k where
  openFile p direction path s := by
    change ((k.openFile p direction path s.1).map _).map _ = _
    cases k.openFile p direction path s.1 <;> rfl
  newPipe s := by
    change ((k.newPipe s.1).map _).map _ = _
    cases k.newPipe s.1 <;> rfl
  write _ _ _ := rfl
  fault _ _ _ := rfl
  fork p s := by
    change ((k.fork p s.1).map _).map _ = _
    cases k.fork p s.1 <;> rfl
  start words p s := by
    change ((k.start words p s.1).map _).map _ = _
    cases k.start words p s.1 <;> rfl
  await _ _ _ := rfl

variable {k} {account} {interpreter : Pid} {running : σ → List Pid}

theorem Kernel.recorded_childLaws (laws : k.ChildLaws interpreter running) :
    (k.recorded account).ChildLaws interpreter fun s => running s.1 :=
  (k.recorded_projects account).childLaws laws

/-- **What is written down is what reaches the system.** -/
theorem Kernel.recorded_speechLaws (running : σ → List Pid)
    (hrunning : ∀ fatal p s, ∀ word ∈ account fatal p s, word.1 ∈ running s) :
    (k.recorded account).SpeechLaws (fun s => running s.1) Prod.snd where
  openFile h := by
    obtain ⟨opened, -, heq⟩ := map_eq_ok.mp h
    obtain ⟨-, rfl⟩ := Prod.mk.inj heq
    rfl
  newPipe h := by
    obtain ⟨made, -, heq⟩ := map_eq_ok.mp h
    obtain ⟨-, rfl⟩ := Prod.mk.inj heq
    rfl
  fork h := by
    obtain ⟨world, -, rfl⟩ := map_eq_ok.mp h
    rfl
  write _ _ _ := rfl
  start h := by
    obtain ⟨world, -, rfl⟩ := map_eq_ok.mp h
    exact ⟨[], (List.append_nil _).symm, by simp⟩
  await fatal p s := ⟨account fatal p s.1, rfl, hrunning fatal p s.1⟩

end

end LineShell
