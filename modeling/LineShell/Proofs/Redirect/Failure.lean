import LineShell.Proofs.Redirect.Blocks
import LineShell.Proofs.Redirect.Files

/-!
# Redirections that fail

An operator without a file is found before anything is done, so that it undoes all. A file that cannot be
opened is found when its turn comes, and then the redirections before it have been carried out.

* `Redirect.applyAll_append`: redirections are carried out one part after another.
* `Redirect.applyAll_eq_unopened_iff`: they end with a file that cannot be opened exactly if the
  redirections before it succeed, and they leave what those leave.
* `OnlyApplied`: what some redirections leave that succeed, in the descriptors and in the files.
* `resolve_failures`: both ways in which the words of a command cannot be resolved.
-/

namespace LineShell

variable {σ : Type u} {N : Type v}

/-! ## Where redirections stop -/

namespace Redirect

section

variable {k : Kernel σ} {r : Redirect} {p p' : Process} {s s' : σ} {path : Text} {failure : OpenFailure}

/-- A redirection fails because its file cannot be opened, or because the open file cannot be put in place. -/
theorem apply_error {e : RedirectError} (h : r.apply k p s = (.error e, p', s')) :
    (∃ failure, p.openFile k r.direction r.target s = .error failure ∧ e = .unopened r.target failure ∧
      p' = p ∧ s' = s) ∨
    ∃ errno, e = .unplaced r.target errno := by
  rcases apply_cases k r p s with ⟨failure, hopen, happly⟩ | ⟨handle, fd, table, s₁, -, -, happly⟩
  · rw [happly] at h
    obtain ⟨herror, hrest⟩ := Prod.mk.inj h
    obtain ⟨rfl, rfl⟩ := Prod.mk.inj hrest
    exact Or.inl ⟨failure, hopen, (Except.error.inj herror).symm, rfl, rfl⟩
  · rw [happly] at h
    have hplaced := congrArg Prod.fst h
    cases hinstall : (table.install fd r.direction.descriptor).1 with
    | error errno =>
      rw [hinstall] at hplaced
      exact Or.inr ⟨errno, (Except.error.inj hplaced).symm⟩
    | ok done =>
      rw [hinstall] at hplaced
      change Except.ok done = _ at hplaced
      exact absurd hplaced (by simp)

theorem apply_eq_unopened_iff :
    r.apply k p s = (.error (.unopened path failure), p', s') ↔
      r.target = path ∧ p' = p ∧ s' = s ∧ p.openFile k r.direction path s = .error failure := by
  constructor
  · intro h
    rcases apply_error h with ⟨failed, hopen, herror, rfl, rfl⟩ | ⟨errno, herror⟩
    · obtain ⟨rfl, rfl⟩ := RedirectError.unopened.inj herror
      exact ⟨rfl, rfl, rfl, hopen⟩
    · exact absurd herror (by simp)
  · rintro ⟨rfl, rfl, rfl, hopen⟩
    unfold apply
    rw [hopen]

/-- Redirections are carried out one part after another, up to the first failure. -/
theorem applyAll_append (k : Kernel σ) (before after : List Redirect) (p : Process) (s : σ) :
    applyAll k (before ++ after) p s =
      match applyAll k before p s with
      | (.ok (), p, s) => applyAll k after p s
      | (.error e, p, s) => (.error e, p, s) := by
  induction before generalizing p s with
  | nil => rfl
  | cons r rest ih =>
    rw [List.cons_append, applyAll, applyAll]
    cases happly : r.apply k p s with
    | mk result state =>
      obtain ⟨p₁, s₁⟩ := state
      cases result with
      | error e => rfl
      | ok done => exact ih p₁ s₁

/-- **A failure is that of the first redirection that fails**, with what was done before it. -/
theorem applyAll_eq_error_iff {redirects : List Redirect} {e : RedirectError} :
    applyAll k redirects p s = (.error e, p', s') ↔ ∃ before r after p₁ s₁,
      redirects = before ++ r :: after ∧ applyAll k before p s = (.ok (), p₁, s₁) ∧
        r.apply k p₁ s₁ = (.error e, p', s') := by
  constructor
  · intro h
    induction redirects generalizing p s with
    | nil => exact absurd (congrArg Prod.fst h) (by simp [applyAll])
    | cons r rest ih =>
      rw [applyAll] at h
      cases happly : r.apply k p s with
      | mk result state =>
        obtain ⟨p₁, s₁⟩ := state
        rw [happly] at h
        cases result with
        | error failed => exact ⟨[], r, rest, p, s, rfl, rfl, happly.trans h⟩
        | ok done =>
          obtain ⟨before, r', after, p₂, s₂, rfl, hbefore, hfailed⟩ := ih h
          refine ⟨r :: before, r', after, p₂, s₂, rfl, ?_, hfailed⟩
          rw [applyAll, happly]
          exact hbefore
  · rintro ⟨before, r, after, p₁, s₁, rfl, hbefore, hfailed⟩
    rw [applyAll_append, hbefore]
    simp only
    rw [applyAll, hfailed]

theorem applyAll_eq_unopened_iff {redirects : List Redirect} :
    applyAll k redirects p s = (.error (.unopened path failure), p', s') ↔ ∃ before r after,
      redirects = before ++ r :: after ∧ r.target = path ∧
        applyAll k before p s = (.ok (), p', s') ∧
        p'.openFile k r.direction path s' = .error failure := by
  rw [applyAll_eq_error_iff]
  constructor
  · rintro ⟨before, r, after, p₁, s₁, rfl, hbefore, hfailed⟩
    obtain ⟨rfl, rfl, rfl, hopen⟩ := apply_eq_unopened_iff.mp hfailed
    exact ⟨before, r, after, rfl, rfl, hbefore, hopen⟩
  · rintro ⟨before, r, after, rfl, rfl, hbefore, hopen⟩
    exact ⟨before, r, after, p', s', rfl, hbefore, apply_eq_unopened_iff.mpr ⟨rfl, rfl, rfl, hopen⟩⟩

/-- An operator without a file is no failure of redirections that are carried out. -/
theorem applyAll_ne_missingTarget (k : Kernel σ) (redirects : List Redirect) (p : Process) (s : σ)
    (direction : Direction) : (applyAll k redirects p s).1 ≠ .error (.missingTarget direction) := by
  intro h
  obtain ⟨-, r, -, p₁, s₁, -, -, hfailed⟩ := applyAll_eq_error_iff.mp (Prod.ext h rfl :
    applyAll k redirects p s = (.error (.missingTarget direction), (applyAll k redirects p s).2))
  rcases apply_error hfailed with ⟨failure, -, herror, -, -⟩ | ⟨errno, herror⟩
  · exact absurd herror (by simp)
  · exact absurd herror (by simp)

end

end Redirect

/-! ## Resolving words -/

section

variable {k : Kernel σ} {p : Process} {s : σ}

/-- A dangling operator is found before anything is done. -/
theorem resolve_dangling (k : Kernel σ) (blocks : List Block) (direction : Direction) (p : Process) (s : σ) :
    resolve k (Block.wordsAll blocks ++ [direction.operator]) p s =
      (.error (.missingTarget direction), p, s) := by
  unfold resolve
  rw [plan_dangling_wordsAll]

/-- Blocks are resolved by carrying out their redirections. -/
theorem resolve_wordsAll (k : Kernel σ) (blocks : List Block) (p : Process) (s : σ) :
    resolve k (Block.wordsAll blocks) p s =
      let ran := Redirect.applyAll k (Block.toPlan blocks).redirects p s
      (ran.1.map fun () => (Block.toPlan blocks).words, ran.2) := by
  unfold resolve
  rw [plan_wordsAll]

/-- Blocks cannot be resolved exactly if their redirections fail. -/
theorem resolve_wordsAll_eq_error_iff {blocks : List Block} {e : RedirectError} {p' : Process} {s' : σ} :
    resolve k (Block.wordsAll blocks) p s = (.error e, p', s') ↔
      Redirect.applyAll k (Block.toPlan blocks).redirects p s = (.error e, p', s') := by
  rw [resolve_wordsAll]
  obtain ⟨result, after⟩ := Redirect.applyAll k (Block.toPlan blocks).redirects p s
  cases result <;> simp [Except.map]

/-- An operator without a file is found exactly where one dangles. -/
theorem resolve_eq_missingTarget_iff {words : List Text} {direction : Direction} {p' : Process} {s' : σ} :
    resolve k words p s = (.error (.missingTarget direction), p', s') ↔
      (∃ blocks, Block.wordsAll blocks ++ [direction.operator] = words) ∧ p' = p ∧ s' = s := by
  constructor
  · intro h
    obtain ⟨⟨blocks, dangling⟩, rfl⟩ := Decomposition.exists_words_eq words
    cases dangling with
    | none =>
      rw [Decomposition.words_none, resolve_wordsAll_eq_error_iff] at h
      exact absurd (congrArg Prod.fst h) (Redirect.applyAll_ne_missingTarget k _ p s direction)
    | some other =>
      rw [Decomposition.words_some, resolve_dangling] at h
      obtain ⟨herror, hrest⟩ := Prod.mk.inj h
      obtain rfl := RedirectError.missingTarget.inj (Except.error.inj herror)
      obtain ⟨rfl, rfl⟩ := Prod.mk.inj hrest
      exact ⟨⟨blocks, rfl⟩, rfl, rfl⟩
  · rintro ⟨⟨blocks, rfl⟩, rfl, rfl⟩
    exact resolve_dangling k blocks direction _ _

/-- A file that cannot be opened is found where the redirections before it succeed. -/
theorem resolve_eq_unopened_iff {words : List Text} {path : Text} {failure : OpenFailure} {p' : Process}
    {s' : σ} :
    resolve k words p s = (.error (.unopened path failure), p', s') ↔ ∃ blocks before r after,
      Block.wordsAll blocks = words ∧ (Block.toPlan blocks).redirects = before ++ r :: after ∧
        r.target = path ∧ Redirect.applyAll k before p s = (.ok (), p', s') ∧
        p'.openFile k r.direction path s' = .error failure := by
  constructor
  · intro h
    obtain ⟨⟨blocks, dangling⟩, rfl⟩ := Decomposition.exists_words_eq words
    cases dangling with
    | none =>
      rw [Decomposition.words_none, resolve_wordsAll_eq_error_iff, Redirect.applyAll_eq_unopened_iff] at h
      obtain ⟨before, r, after, hsplit, hrest⟩ := h
      exact ⟨blocks, before, r, after, (Decomposition.words_none blocks).symm, hsplit, hrest⟩
    | some direction =>
      rw [Decomposition.words_some, resolve_dangling] at h
      exact absurd (Except.error.inj (Prod.mk.inj h).1) (by simp)
  · rintro ⟨blocks, before, r, after, rfl, hsplit, hrest⟩
    exact resolve_wordsAll_eq_error_iff.mpr
      (Redirect.applyAll_eq_unopened_iff.mpr ⟨before, r, after, hsplit, hrest⟩)

end

/-- **All that has happened is that some redirections succeeded.** Each has opened its file; each descriptor
leads to the last file opened for it, or where it led before; and files hold what opening them makes of
what they held. -/
structure OnlyApplied [DecidableEq N] (k : Kernel σ) (view : FileView σ N) (done : List Redirect)
    (p : Process) (s : σ) (p' : Process) (s' : σ) : Prop where
  applied : Redirect.applyAll k done p s = (.ok (), p', s')
  opened : ∃ (openings : List Opening) (table : Table), openings.map (·.redirect) = done ∧
    k.Opens openings s s' ∧ p' = { p with table } ∧ table.capacity = p.table.capacity ∧
    ∀ fd, table.get? fd = p.table.redirected openings fd
  /-- Where their targets name regular files, or places for them, no other file has changed. -/
  content : view.Sound s → (∀ r ∈ done, view.named? s r.target ≠ none) →
    view.content? s' = view.reopened s done ∧
    ∀ n, (∀ r ∈ done, view.named? s r.target ≠ some n) → view.content? s' n = view.content? s n

theorem OnlyApplied.of_applyAll [DecidableEq N] {k : Kernel σ} {view : FileView σ N}
    (hk : k.OpensFiles view) {done : List Redirect} {p p' : Process} {s s' : σ}
    (h : Redirect.applyAll k done p s = (.ok (), p', s')) : OnlyApplied k view done p s p' s' := by
  obtain ⟨openings, table, rfl, hopens, rfl, hcapacity, hget⟩ := Redirect.applyAll_opens h
  refine ⟨h, ⟨openings, table, rfl, hopens, rfl, hcapacity, hget⟩, fun hsound hnamed => ?_⟩
  obtain ⟨-, -, -, hcontent, -⟩ := hopens.files hk hsound hnamed
  refine ⟨hcontent, fun n hn => ?_⟩
  rw [hcontent]
  exact FileView.reopened_of_input fun r hr hname => absurd hname (hn r hr)

/-- **How redirections fail.**

If an operator dangles behind the blocks of the words, this is the error, and nothing at all has happened.
Otherwise the error can be a file that cannot be opened. It is the first such one, and all that has happened
is that the redirections before it succeeded. -/
theorem resolve_failures [DecidableEq N] {k : Kernel σ} {view : FileView σ N} (hk : k.OpensFiles view)
    (words : List Text) (p : Process) (s : σ) :
    (∀ direction p' s', resolve k words p s = (.error (.missingTarget direction), p', s') ↔
      (∃ blocks, Block.wordsAll blocks ++ [direction.operator] = words) ∧ p' = p ∧ s' = s) ∧
    ∀ path failure p' s', resolve k words p s = (.error (.unopened path failure), p', s') ↔
      ∃ blocks before r after, Block.wordsAll blocks = words ∧
        (Block.toPlan blocks).redirects = before ++ r :: after ∧ r.target = path ∧
        OnlyApplied k view before p s p' s' ∧ p'.openFile k r.direction path s' = .error failure := by
  refine ⟨fun direction p' s' => resolve_eq_missingTarget_iff, fun path failure p' s' => ?_⟩
  rw [resolve_eq_unopened_iff]
  constructor
  · rintro ⟨blocks, before, r, after, hwords, hsplit, htarget, hbefore, hopen⟩
    exact ⟨blocks, before, r, after, hwords, hsplit, htarget, .of_applyAll hk hbefore, hopen⟩
  · rintro ⟨blocks, before, r, after, hwords, hsplit, htarget, hbefore, hopen⟩
    exact ⟨blocks, before, r, after, hwords, hsplit, htarget, hbefore.applied, hopen⟩

/-- A file is made, the next one is not there, and one behind it keeps what it holds. Where an operator
dangles as well, no file is made. -/
theorem resolve_failures_between_files :
    let files : FileTree :=
      ⟨#[.directory 0o755 0 [([102], 1)], .file 0o644 [7]], 0, FileTree.usualMask⟩
    let w : World := .ofSystem ⟨files, #[], #[], []⟩ []
    let p : Process := ⟨1, 0, ⟨[none, none, some ⟨.pipe 0 .write, false⟩], 9⟩, []⟩
    let words : List Text := [['>'], ['g'], ['<'], ['m'], ['>'], ['f']]
    let done := Redirect.applyAll Kernel.inMemory [⟨.output, ['g']⟩] p w
    done.1 = .ok () ∧
      resolve Kernel.inMemory words p w = (.error (.unopened ['m'] (.refused .noEntry)), done.2) ∧
      done.2.1.table.slots = [none, some ⟨.file 0, false⟩, some ⟨.pipe 0 .write, false⟩] ∧
      World.regularFiles.content? done.2.2 (0, [103]) = some [] ∧
      World.regularFiles.content? done.2.2 (0, [102]) = some [7] ∧
      resolve Kernel.inMemory (words ++ [['>', '>']]) p w = (.error (.missingTarget .append), p, w) := by
  intro files w p words done
  obtain ⟨-, hunopened⟩ := resolve_failures Kernel.inMemory_opensFiles words p w
  obtain ⟨hdangling, -⟩ := resolve_failures Kernel.inMemory_opensFiles (words ++ [['>', '>']]) p w
  let blocks : List Block :=
    [.redirect ⟨.output, ['g']⟩, .redirect ⟨.input, ['m']⟩, .redirect ⟨.output, ['f']⟩]
  have hdone : done.1 = .ok () := by
    unfold done p w files
    rfl
  have happlied : OnlyApplied Kernel.inMemory World.regularFiles [⟨.output, ['g']⟩] p w done.2.1 done.2.2 :=
    .of_applyAll Kernel.inMemory_opensFiles (Prod.ext hdone rfl)
  have hopen : done.2.1.openFile Kernel.inMemory .input ['m'] done.2.2 = .error (.refused .noEntry) := by
    unfold done p w files
    rfl
  obtain ⟨hcontent, hkept⟩ := happlied.content (FileTree.sound_of_one_file ..) (by decide)
  refine ⟨hdone, ?_, by decide +kernel, ?_, ?_, ?_⟩
  · exact (hunopened _ _ _ _).mpr ⟨blocks, [⟨.output, ['g']⟩], ⟨.input, ['m']⟩, [⟨.output, ['f']⟩], rfl, rfl,
      rfl, happlied, hopen⟩
  · rw [hcontent]
    rfl
  · exact hkept (0, [102]) (by decide)
  · exact (hdangling .append p w).mpr ⟨⟨blocks, rfl⟩, rfl, rfl⟩

end LineShell
