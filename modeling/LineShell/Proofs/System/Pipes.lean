import LineShell.Proofs.Kernel.Laws
import LineShell.System.Console

/-!
# Pipes of the system held in memory

The system held in memory numbers its pipes in the order in which they are made, and what a pipeline
trusts a system with holds of it (`Kernel.inMemory_pipeLaws`): a number is in use when so many pipes were
made before.
-/

namespace LineShell

namespace System

theorem seek_pipes (s : System) (file position : Nat) : (s.seek file position).pipes = s.pipes := by
  unfold seek
  split <;> rfl

/-- Writing to a file makes no pipe. -/
theorem writeFile_pipes (file : Nat) (bytes : Bytes) (s : System) :
    (s.writeFile file bytes).2.pipes = s.pipes := by
  unfold writeFile
  split
  · rfl
  · rfl
  · rfl
  · split
    · exact seek_pipes _ _ _
    · rfl
    · rfl

/-- Writing makes no pipe. -/
theorem write_pipes (handle : Handle) (bytes : Bytes) (s : System) :
    (s.write handle bytes).pipes.size = s.pipes.size := by
  unfold write
  split
  · exact Array.size_setIfInBounds
  · rfl
  · rw [writeFile_pipes]

/-- Opening a handle anew makes no pipe, and gives the end of a pipe that the direction asks for. -/
theorem reopen_pipes {s s' : System} {h h' : Handle} {direction : Direction}
    (hreopen : s.reopen h direction = .ok (h', s')) :
    s'.pipes = s.pipes ∧
      ∀ id side, h' = .pipe id side → (side = .read ↔ direction = .input) := by
  unfold reopen at hreopen
  split at hreopen
  · obtain ⟨rfl, rfl⟩ := Prod.mk.inj (Except.ok.inj hreopen)
    refine ⟨rfl, fun id side hside => ?_⟩
    obtain ⟨-, rfl⟩ := Handle.pipe.inj hside
    split <;> simp_all
  · split at hreopen
    · rename_i id position before _
      cases hdemand : s.files.demand id (if direction = .input then .read else .write) with
      | error errno => rw [hdemand] at hreopen; exact absurd hreopen (by simp [bind, Except.bind])
      | ok done =>
        rw [hdemand] at hreopen
        obtain ⟨rfl, rfl⟩ := Prod.mk.inj (Except.ok.inj hreopen)
        exact ⟨rfl, fun id side hside => absurd hside (by simp)⟩
    · obtain ⟨rfl, rfl⟩ := Prod.mk.inj (Except.ok.inj hreopen)
      exact ⟨rfl, fun id side hside => absurd hside (by simp)⟩
    · exact absurd hreopen (by simp)

theorem openFile_pipes {s s' : System} {t : Table} {direction : Direction} {path : Bytes}
    {mode : Nat} {handle : Handle} (hopen : s.openFile t direction path mode = .ok (handle, s')) :
    s'.pipes = s.pipes ∧
      ∀ id side, handle = .pipe id side → (side = .read ↔ direction = .input) := by
  unfold openFile at hopen
  cases hfor : s.files.openFor direction path mode with
  | error errno => rw [hfor] at hopen; exact absurd hopen (by simp [bind, Except.bind])
  | ok found =>
    rw [hfor] at hopen
    simp only [bind, Except.bind] at hopen
    split at hopen
    · split at hopen
      · exact reopen_pipes hopen
      · exact absurd hopen (by simp [throw, throwThe, MonadExceptOf.throw])
    · obtain ⟨rfl, rfl⟩ := Prod.mk.inj (Except.ok.inj hopen)
      exact ⟨rfl, fun id side hside => absurd hside (by simp)⟩

end System

/-- What the kernel opens, the system opened. -/
theorem Kernel.inMemory_openFile {p : Process} {direction : Direction} {path : Text} {w w' : World}
    {handle : Handle} (h : inMemory.openFile p direction path w = .ok (handle, w')) :
    w.system.openFile p.table direction (Utf8.encode path) redirectionMode = .ok (handle, w'.system) := by
  change (w.system.openFile p.table direction (Utf8.encode path) redirectionMode).map _ = _ at h
  cases hopen : w.system.openFile p.table direction (Utf8.encode path) redirectionMode with
  | error errno => rw [hopen] at h; exact absurd h (by simp [Except.map])
  | ok opened =>
    rw [hopen] at h
    obtain ⟨rfl, rfl⟩ := Prod.mk.inj (Except.ok.inj h)
    rfl

/-- Starting a program leaves the files and the pipes as they are. -/
theorem Kernel.inMemory_start {words : List Text} {p : Process} {w w' : World}
    (h : inMemory.start words p w = .ok w') : w'.system = w.system := by
  change (load w.system.files searchPath (words.map Utf8.encode)).map _ = _ at h
  cases hload : load w.system.files searchPath (words.map Utf8.encode) with
  | error errno => rw [hload] at h; exact absurd h (by simp [Except.map])
  | ok image =>
    rw [hload] at h
    obtain rfl := Except.ok.inj h
    rfl

/-- **The system held in memory numbers its pipes as a pipeline trusts it to.** -/
theorem Kernel.inMemory_pipeLaws : inMemory.PipeLaws fun w id => id < w.system.pipes.size where
  fresh h := by
    obtain ⟨rfl, -⟩ := Prod.mk.inj (Except.ok.inj h)
    exact Nat.lt_irrefl _
  made h := by
    obtain ⟨rfl, rfl⟩ := Prod.mk.inj (Except.ok.inj h)
    simp
  kept h hother := by
    obtain ⟨-, rfl⟩ := Prod.mk.inj (Except.ok.inj h)
    simp only [Array.size_push]
    exact Nat.lt_succ_of_lt hother
  keeps id :=
    { openFile := fun {p direction path w handle w'} h hw => by
        rw [(System.openFile_pipes (inMemory_openFile h)).1]
        exact hw
      write := fun handle bytes w hw => by
        change id < (w.system.write handle bytes).pipes.size
        rw [System.write_pipes]
        exact hw
      fork := fun h hw => by
        obtain rfl := Except.ok.inj h
        exact hw
      start := fun {words p w w'} h hw => by
        rw [inMemory_start h]
        exact hw }
  side h := (System.openFile_pipes (inMemory_openFile h)).2 _ _ rfl

end LineShell
