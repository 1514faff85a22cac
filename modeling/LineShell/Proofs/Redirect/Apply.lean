import LineShell.Proofs.Kernel.Table
import LineShell.Redirect.Apply

/-!
# What a redirection does to a process

A redirection opens its file at the lowest free number and moves it to the descriptor of its direction.

* `Process.openFile_eq_ok`: a file that could be opened, through all the checks before it.
* `Redirect.apply_cases`: what carrying a redirection out can come to, in the process and in the world.
* `Redirect.apply_ok`: one that succeeds rebinds its descriptor, and changes nothing else of the table.
* `Opening.last?`: the file that the last redirection of a descriptor opened.
* `Redirect.applyAll_opens`: redirections that succeed open one file each, in order, and leave each
  descriptor with the last file opened for it.
-/

namespace LineShell

variable {σ : Type u}

/-- A file that could be opened is at the lowest free number, and nothing else of the process has
changed. -/
theorem Process.openFile_eq_ok {k : Kernel σ} {p p' : Process} {direction : Direction} {path : Text}
    {s s' : σ} {fd : Nat} (h : p.openFile k direction path s = .ok (fd, p', s')) :
    ∃ handle table, k.openFile p direction path s = .ok (handle, s') ∧
      p.table.insert ⟨handle, true⟩ = .ok (fd, table) ∧ p' = { p with table } := by
  unfold openFile at h
  split at h
  · exact absurd h (by simp)
  · split at h
    · exact absurd h (by simp)
    · split at h
      · exact absurd h (by simp)
      · cases hfile : k.openFile p direction path s with
        | error errno => rw [hfile] at h; exact absurd h (by simp)
        | ok opened =>
          obtain ⟨handle, s₁⟩ := opened
          rw [hfile] at h
          simp only at h
          cases hinsert : p.table.insert ⟨handle, true⟩ with
          | error errno => rw [hinsert] at h; exact absurd h (by simp)
          | ok inserted =>
            obtain ⟨fd₁, table⟩ := inserted
            rw [hinsert] at h
            simp only [Except.ok.injEq, Prod.mk.injEq] at h
            obtain ⟨rfl, rfl, rfl⟩ := h
            exact ⟨handle, table, rfl, hinsert, rfl⟩

namespace Redirect

/-- Carrying a redirection out: its file could not be opened, and nothing has changed; or it was
opened, and put in its place as far as that could be done. -/
theorem apply_cases (k : Kernel σ) (r : Redirect) (p : Process) (s : σ) :
    (∃ failure, p.openFile k r.direction r.target s = .error failure ∧
      r.apply k p s = (.error (.unopened r.target failure), p, s)) ∨
    ∃ handle fd table s', k.openFile p r.direction r.target s = .ok (handle, s') ∧
      p.table.insert ⟨handle, true⟩ = .ok (fd, table) ∧
      r.apply k p s = ((table.install fd r.direction.descriptor).1.mapError (.unplaced r.target),
        { p with table := (table.install fd r.direction.descriptor).2 }, s') := by
  unfold apply
  cases hopen : p.openFile k r.direction r.target s with
  | error failure => exact Or.inl ⟨failure, rfl, rfl⟩
  | ok opened =>
    obtain ⟨fd, p', s'⟩ := opened
    obtain ⟨handle, table, hfile, hinsert, rfl⟩ := Process.openFile_eq_ok hopen
    exact Or.inr ⟨handle, fd, table, s', hfile, hinsert, rfl⟩

/-- **A redirection that succeeds rebinds one descriptor** to the file it opened, and leaves no other
trace in the table. -/
theorem apply_ok {k : Kernel σ} {r : Redirect} {p p' : Process} {s s' : σ}
    (h : r.apply k p s = (.ok (), p', s')) :
    ∃ handle table, k.openFile p r.direction r.target s = .ok (handle, s') ∧
      p' = { p with table } ∧ table.capacity = p.table.capacity ∧
      ∀ fd, table.get? fd =
        if fd = r.direction.descriptor then some ⟨handle, false⟩ else p.table.get? fd := by
  rcases apply_cases k r p s with ⟨failure, -, happly⟩ | ⟨handle, fd, table, s₁, hfile, hinsert, happly⟩
  · rw [happly] at h
    exact absurd h (by simp)
  · rw [happly] at h
    simp only [Prod.mk.injEq] at h
    obtain ⟨hplaced, rfl, rfl⟩ := h
    have hinstall : table.install fd r.direction.descriptor =
        (.ok (), (table.install fd r.direction.descriptor).2) := by
      refine Prod.ext ?_ rfl
      cases hfst : (table.install fd r.direction.descriptor).1 with
      | error errno =>
        rw [hfst] at hplaced
        change Except.error _ = _ at hplaced
        exact absurd hplaced (by simp)
      | ok done => rfl
    obtain ⟨hcapacity, hget⟩ := Table.get?_install_insert hinsert hinstall
    exact ⟨handle, _, hfile, rfl, hcapacity, hget⟩

/-- Whatever becomes of a redirection, only the table of the process changes. -/
theorem apply_process (k : Kernel σ) (r : Redirect) (p : Process) (s : σ) :
    ∃ table, (r.apply k p s).2.1 = { p with table } := by
  rcases apply_cases k r p s with ⟨failure, -, happly⟩ | ⟨handle, fd, table, s', -, -, happly⟩
  · exact ⟨p.table, by rw [happly]⟩
  · exact ⟨_, by rw [happly]⟩

theorem applyAll_process (k : Kernel σ) (redirects : List Redirect) (p : Process) (s : σ) :
    ∃ table, (applyAll k redirects p s).2.1 = { p with table } := by
  induction redirects generalizing p s with
  | nil => exact ⟨p.table, rfl⟩
  | cons r rest ih =>
    obtain ⟨table, happly⟩ := apply_process k r p s
    rw [applyAll]
    generalize r.apply k p s = applied at happly ⊢
    obtain ⟨result, p', s'⟩ := applied
    obtain rfl : p' = { p with table } := happly
    cases result with
    | error e => exact ⟨table, rfl⟩
    | ok done =>
      obtain ⟨table', hrest⟩ := ih { p with table } s'
      exact ⟨table', hrest⟩

end Redirect

/-! ## Files opened in order -/

/-- A file that was opened for a redirection. -/
structure Opening where
  redirect : Redirect
  handle : Handle

/-- The last file that was opened for a descriptor. -/
def Opening.last? (fd : Nat) (openings : List Opening) : Option Handle :=
  ((openings.filter fun o => o.redirect.direction.descriptor = fd).getLast?).map (·.handle)

theorem Opening.last?_cons (fd : Nat) (o : Opening) (rest : List Opening) :
    last? fd (o :: rest) =
      (last? fd rest).or (if fd = o.redirect.direction.descriptor then some o.handle else none) := by
  unfold last?
  by_cases h : o.redirect.direction.descriptor = fd
  · rw [List.filter_cons_of_pos (by simpa using h), if_pos h.symm, List.getLast?_cons]
    cases (rest.filter fun o => o.redirect.direction.descriptor = fd).getLast? <;> rfl
  · rw [List.filter_cons_of_neg (by simpa using h), if_neg (Ne.symm h), Option.or_none]

theorem Opening.mem_of_last? {fd : Nat} {openings : List Opening} {handle : Handle}
    (h : last? fd openings = some handle) :
    ∃ o ∈ openings, o.redirect.direction.descriptor = fd ∧ o.handle = handle := by
  unfold last? at h
  obtain ⟨o, ho, rfl⟩ := Option.map_eq_some_iff.mp h
  have hmem := List.mem_filter.mp (List.mem_of_getLast? ho)
  exact ⟨o, hmem.1, by simpa using hmem.2, rfl⟩

/-- A descriptor after files were opened for it: the last one of them, or what it was before. -/
def Table.redirected (t : Table) (openings : List Opening) (fd : Nat) : Option Slot :=
  (Opening.last? fd openings).elim (t.get? fd) fun handle => some ⟨handle, false⟩

/-- Files are opened one after another, by whatever processes. -/
inductive Kernel.Opens (k : Kernel σ) : List Opening → σ → σ → Prop where
  | nil (s : σ) : Opens k [] s s
  | cons {o : Opening} {rest : List Opening} {p : Process} {s between s' : σ} :
      k.openFile p o.redirect.direction o.redirect.target s = .ok (o.handle, between) →
      Opens k rest between s' → Opens k (o :: rest) s s'

theorem Kernel.Opens.append {k : Kernel σ} {first second : List Opening} {s between s' : σ}
    (h : k.Opens first s between) (h' : k.Opens second between s') : k.Opens (first ++ second) s s' := by
  induction h with
  | nil s => exact h'
  | cons hfile _ ih => exact .cons hfile (ih h')

/-- **Redirections that succeed open one file each, in order, and the last file of each descriptor wins.**
Nothing else of the process has changed. -/
theorem Redirect.applyAll_opens {k : Kernel σ} {redirects : List Redirect} {p p' : Process} {s s' : σ}
    (h : applyAll k redirects p s = (.ok (), p', s')) :
    ∃ openings table, openings.map (·.redirect) = redirects ∧ k.Opens openings s s' ∧
      p' = { p with table } ∧ table.capacity = p.table.capacity ∧
      ∀ fd, table.get? fd = p.table.redirected openings fd := by
  induction redirects generalizing p s with
  | nil =>
    simp only [applyAll, Prod.mk.injEq, true_and] at h
    obtain ⟨rfl, rfl⟩ := h
    exact ⟨[], p.table, rfl, .nil s, rfl, rfl, fun fd => rfl⟩
  | cons r rest ih =>
    rw [applyAll] at h
    cases happly : r.apply k p s with
    | mk result after =>
      obtain ⟨p₁, s₁⟩ := after
      rw [happly] at h
      cases result with
      | error e => exact absurd h (by simp)
      | ok done =>
        obtain ⟨handle, opened, hfile, rfl, hcapacity, hget⟩ := apply_ok happly
        obtain ⟨openings, table, hmap, hopens, rfl, hcapacity', hget'⟩ := ih h
        refine ⟨⟨r, handle⟩ :: openings, table, by rw [List.map_cons, hmap], .cons hfile hopens, rfl,
          hcapacity'.trans hcapacity, fun fd => ?_⟩
        rw [hget']
        unfold Table.redirected
        rw [Opening.last?_cons, hget]
        cases Opening.last? fd openings with
        | some other => rfl
        | none =>
          simp only [Option.elim_none, Option.none_or]
          split <;> rfl

theorem resolve_process (k : Kernel σ) (words : List Text) (p : Process) (s : σ) :
    ∃ table, (resolve k words p s).2.1 = { p with table } := by
  unfold resolve
  split
  · exact ⟨p.table, rfl⟩
  · exact Redirect.applyAll_process k _ p s

end LineShell
