import LineShell.Proofs.Kernel.Keep
import LineShell.Proofs.Kernel.Projection

/-!
# Writing down what happens

Some of what a pipeline does is gone when it is over: which pipes were made, which files were opened,
and what each child was when it began on its command. A `Journal` beside the shared state holds these,
and `Kernel.journaled` and `ChildBody.journaled` keep it. What they do otherwise is what they did
before (`journaled_projects`).

* `Redirect.applyAll_journaled`: redirections that succeed write down one file each, in order, and leave
  each descriptor with the last file written down for it.
-/

namespace LineShell

variable {σ : Type u}

/-- The handle is what a kernel gave for the file. -/
def Opening.Genuine (k : Kernel σ) (o : Opening) : Prop :=
  ∃ p s s', k.openFile p o.redirect.direction o.redirect.target s = .ok (o.handle, s')

/-- A child when it begins on its command. -/
structure Beginning (σ : Type u) where
  words : List Text
  process : Process
  world : σ

/-- What has happened so far, in order. -/
structure Journal (σ : Type u) where
  /-- The numbers of the pipes that were made. -/
  pipes : List Nat
  /-- The files that were opened. -/
  openings : List Opening
  /-- The children that began on their commands. -/
  beginnings : List (Beginning σ)

/-- The journal in which nothing has happened. -/
def Journal.empty : Journal σ := ⟨[], [], []⟩

/-- The kernel that also writes down the pipes it makes and the files it opens. -/
def Kernel.journaled (k : Kernel σ) : Kernel (σ × Journal σ) where
  openFile p direction path s :=
    (k.openFile p direction path s.1).map fun (handle, world) =>
      (handle, world,
        { s.2 with openings := s.2.openings ++ [⟨⟨direction, path⟩, handle⟩] })
  newPipe s :=
    (k.newPipe s.1).map fun (id, world) => (id, world, { s.2 with pipes := s.2.pipes ++ [id] })
  write handle bytes s := (k.write handle bytes s.1, s.2)
  fault handle bytes s := k.fault handle bytes s.1
  fork p s := (k.fork p s.1).map fun world => (world, s.2)
  start words p s := (k.start words p s.1).map fun world => (world, s.2)
  await fatal p s :=
    let (events, world) := k.await fatal p s.1
    (events, world, s.2)

/-- A child that writes down that it begins. -/
def ChildBody.journaled (body : ChildBody σ) : ChildBody (σ × Journal σ) := fun words p s =>
  let (result, p', world) := body words p s.1
  (result, p', world, { s.2 with beginnings := s.2.beginnings ++ [⟨words, p, s.1⟩] })

/-- The interpreter with an empty journal. -/
def Machine.journaling (m : Machine σ) : Machine (σ × Journal σ) := m.map (·, .empty)

/-- **A journal changes nothing else.** -/
theorem Kernel.journaled_projects (k : Kernel σ) : k.journaled.Projects Prod.fst k where
  openFile p direction path s := by
    change ((k.openFile p direction path s.1).map _).map _ = _
    cases k.openFile p direction path s.1 <;> rfl
  newPipe s := by
    change ((k.newPipe s.1).map _).map _ = _
    cases k.newPipe s.1 <;> rfl
  write _ _ _ := rfl
  fault _ _ _ := rfl
  fork p s := by
    change ((k.fork p s.1).map _).map _ = _
    cases k.fork p s.1 <;> rfl
  start words p s := by
    change ((k.start words p s.1).map _).map _ = _
    cases k.start words p s.1 <;> rfl
  await _ _ _ := rfl

theorem ChildBody.journaled_projects (body : ChildBody σ) : body.journaled.Projects Prod.fst body :=
  fun _ _ _ => rfl

theorem Machine.journaling_map (m : Machine σ) : m.journaling.map Prod.fst = m := by
  obtain ⟨process, interrupted, outcomes, nextPid, disposition, halted, world⟩ := m
  cases halted <;> rfl

/-! ## What each call writes down -/

section

variable {k : Kernel σ} {journal : Journal σ}

theorem Kernel.journaled_openFile {p : Process} {direction : Direction} {path : Text}
    {s s' : σ × Journal σ} {handle : Handle}
    (h : k.journaled.openFile p direction path s = .ok (handle, s')) :
    k.openFile p direction path s.1 = .ok (handle, s'.1) ∧
      s'.2 = { s.2 with openings := s.2.openings ++ [⟨⟨direction, path⟩, handle⟩] } := by
  change (k.openFile p direction path s.1).map _ = _ at h
  cases hfile : k.openFile p direction path s.1 with
  | error errno => rw [hfile] at h; exact absurd h (by simp [Except.map])
  | ok opened =>
    rw [hfile] at h
    obtain ⟨rfl, rfl⟩ := Prod.mk.inj (Except.ok.inj h)
    exact ⟨rfl, rfl⟩

theorem Kernel.journaled_newPipe {s s' : σ × Journal σ} {id : Nat}
    (h : k.journaled.newPipe s = .ok (id, s')) :
    k.newPipe s.1 = .ok (id, s'.1) ∧ s'.2 = { s.2 with pipes := s.2.pipes ++ [id] } := by
  change (k.newPipe s.1).map _ = _ at h
  cases hpipe : k.newPipe s.1 with
  | error errno => rw [hpipe] at h; exact absurd h (by simp [Except.map])
  | ok made =>
    rw [hpipe] at h
    obtain ⟨rfl, rfl⟩ := Prod.mk.inj (Except.ok.inj h)
    exact ⟨rfl, rfl⟩

theorem Kernel.journaled_fork {p : Process} {s s' : σ × Journal σ}
    (h : k.journaled.fork p s = .ok s') : k.fork p s.1 = .ok s'.1 ∧ s'.2 = s.2 := by
  change (k.fork p s.1).map _ = _ at h
  cases hfork : k.fork p s.1 with
  | error errno => rw [hfork] at h; exact absurd h (by simp [Except.map])
  | ok world =>
    rw [hfork] at h
    obtain rfl := Except.ok.inj h
    exact ⟨rfl, rfl⟩

/-- What a kernel keeps, it keeps with a journal. -/
theorem Kernel.Keeps.journaled {P : σ → Prop} (h : k.Keeps P) : k.journaled.Keeps fun s => P s.1 where
  openFile hopen hs := h.openFile (journaled_openFile hopen).1 hs
  write handle bytes s hs := h.write handle bytes s.1 hs
  fork hfork hs := h.fork (journaled_fork hfork).1 hs

theorem Process.write_journal (p : Process) (fd : Nat) (bytes : Bytes) (s : σ × Journal σ) :
    (p.write k.journaled fd bytes s).2 = s.2 := by
  unfold write
  split <;> rfl

theorem Process.flush_journal (p : Process) (s : σ × Journal σ) :
    (p.flush k.journaled s).2.2 = s.2 := by
  unfold flush
  split
  · rfl
  · exact write_journal p 1 _ s

theorem Process.finish_journal (ran : ChildResult × Process × σ × Journal σ) :
    (finish k.journaled ran).2.2 = ran.2.2.2 := by
  obtain ⟨result, p, s⟩ := ran
  cases result with
  | replaced => rfl
  | returned code => exact flush_journal p s

theorem Machine.waitAll_journal (pids : List Pid) (m : Machine (σ × Journal σ)) :
    (m.waitAll k.journaled pids).2.world.2 = m.world.2 := by
  cases pids with
  | nil => rfl
  | cons pid pids =>
    rw [waitAll_world, await_world]
    rfl

/-! ## Redirections -/

/-- What is opened in order is written down in order. -/
theorem Kernel.Opens.journaled {openings : List Opening} {s s' : σ × Journal σ}
    (h : k.journaled.Opens openings s s') :
    s'.2 = { s.2 with openings := s.2.openings ++ openings } ∧ ∀ o ∈ openings, o.Genuine k := by
  induction h with
  | nil s => exact ⟨by simp, by simp⟩
  | cons hfile _ ih =>
    obtain ⟨hjournal, hgenuine⟩ := ih
    obtain ⟨hfile, hfirst⟩ := Kernel.journaled_openFile hfile
    refine ⟨?_, List.forall_mem_cons.mpr ⟨⟨_, _, _, hfile⟩, hgenuine⟩⟩
    rw [hjournal, hfirst]
    simp

/-- **Redirections that succeed open one file each, in order, and the last file of each descriptor
wins.** -/
theorem Redirect.applyAll_journaled {redirects : List Redirect} {p p' : Process} {s s' : σ × Journal σ}
    (h : applyAll k.journaled redirects p s = (.ok (), p', s')) :
    ∃ openings, s'.2 = { s.2 with openings := s.2.openings ++ openings } ∧
      openings.map (·.redirect) = redirects ∧ (∀ o ∈ openings, o.Genuine k) ∧
      ∀ fd, p'.table.get? fd = p.table.redirected openings fd := by
  obtain ⟨openings, table, hmap, hopens, rfl, -, hget⟩ := applyAll_opens h
  obtain ⟨hjournal, hgenuine⟩ := hopens.journaled
  exact ⟨openings, hjournal, hmap, hgenuine, hget⟩

/-- A journal can be kept of every resolution of the words of a command. -/
theorem resolve_journal {words args : List Text} {p p' : Process} {world ended : σ}
    (h : resolve k words p world = (.ok args, p', ended)) :
    ∃ journal, resolve k.journaled words p (world, .empty) = (.ok args, p', ended, journal) := by
  have hmap := resolve_map k.journaled_projects words p (world, .empty)
  rw [h] at hmap
  generalize resolve k.journaled words p (world, .empty) = resolved at hmap
  obtain ⟨result, process, after, journal⟩ := resolved
  obtain ⟨rfl, hrest⟩ := Prod.mk.inj hmap
  obtain ⟨rfl, rfl⟩ := Prod.mk.inj hrest
  exact ⟨journal, rfl⟩

/-- What resolving the words of a command comes to when it succeeds: the plan, the files opened, and
the descriptors afterwards. -/
theorem resolve_journaled {words args : List Text} {p p' : Process} {s s' : σ × Journal σ}
    (h : resolve k.journaled words p s = (.ok args, p', s')) :
    ∃ planned openings, plan words = .ok planned ∧ args = planned.words ∧
      s'.2 = { s.2 with openings := s.2.openings ++ openings } ∧
      openings.map (·.redirect) = planned.redirects ∧ (∀ o ∈ openings, o.Genuine k) ∧
      ∀ fd, p'.table.get? fd = p.table.redirected openings fd := by
  unfold resolve at h
  cases hplan : plan words with
  | error e => rw [hplan] at h; exact absurd h (by simp)
  | ok planned =>
    rw [hplan] at h
    simp only at h
    cases happly : Redirect.applyAll k.journaled planned.redirects p s with
    | mk result after =>
      obtain ⟨p₁, s₁⟩ := after
      rw [happly] at h
      cases result with
      | error e => exact absurd h (by simp [Except.map])
      | ok done =>
        obtain ⟨openings, hjournal, hrest⟩ := Redirect.applyAll_journaled happly
        simp only [Except.map, Prod.mk.injEq, Except.ok.injEq] at h
        obtain ⟨rfl, rfl, rfl⟩ := h
        exact ⟨planned, openings, rfl, rfl, hjournal, hrest⟩

end

end LineShell
