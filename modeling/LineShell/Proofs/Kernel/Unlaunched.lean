import LineShell.Proofs.Evaluation.Flat
import LineShell.Proofs.Evaluation.Status
import LineShell.Proofs.Kernel.Launch
import LineShell.Proofs.Kernel.Reap
import LineShell.Proofs.Redirect.Failure

/-!
# Children that start no program

A child that starts no program either had none to start, or it gives up. Then it ends with a code other than
0, and all that it has written is one diagnostic to standard error.

* `OnlyRedirected`: files were opened, and descriptor 2 and those above it lead where they led. This holds
  however far redirections came: `resolve_onlyRedirected`.
* `Process.runCommand_cases`: the four ways in which a child comes out.
* `GivesUp`: what a child does that gives up. `Process.returned_cases`: a child that returns had nothing to
  start, or gives up.
* `Unasked`: whether a program could be started is not asked.
* `Machine.launcher_returned`: the interpreter sees that its child gave up. `Machine.Unlaunched`: it did, or
  it could not be forked.
* `unlaunched_fails`: when a child gives up, with which code and message, and that nothing behind an `&&` is
  launched after it.
-/

namespace LineShell

variable {σ : Type u}

/-! ## What redirections leave alone -/

/-- All that has happened is that files were opened, one after another, and that standard input and output
may lead elsewhere. -/
structure OnlyRedirected (k : Kernel σ) (p : Process) (s : σ) (p' : Process) (s' : σ) : Prop where
  opens : ∃ openings, k.Opens openings s s'
  process : ∃ table, p' = { p with table }
  get? : ∀ fd, 2 ≤ fd → p'.table.get? fd = p.table.get? fd

namespace OnlyRedirected

variable {k : Kernel σ} {p p' p'' : Process} {s s' s'' : σ}

theorem refl (k : Kernel σ) (p : Process) (s : σ) : OnlyRedirected k p s p s :=
  ⟨⟨[], .nil s⟩, ⟨p.table, rfl⟩, fun _ _ => rfl⟩

theorem trans (h : OnlyRedirected k p s p' s') (h' : OnlyRedirected k p' s' p'' s'') :
    OnlyRedirected k p s p'' s'' := by
  obtain ⟨openings, hopens⟩ := h.opens
  obtain ⟨later, hlater⟩ := h'.opens
  obtain ⟨table, rfl⟩ := h.process
  obtain ⟨table', rfl⟩ := h'.process
  exact ⟨⟨openings ++ later, hopens.append hlater⟩, ⟨table', rfl⟩,
    fun fd hfd => (h'.get? fd hfd).trans (h.get? fd hfd)⟩

/-- Writing to standard error goes where it went before. -/
theorem write_error (h : OnlyRedirected k p s p' s') (bytes : Bytes) (world : σ) :
    p'.write k 2 bytes world = p.write k 2 bytes world := by
  unfold Process.write
  rw [h.get? 2 (Nat.le_refl 2)]

theorem output (h : OnlyRedirected k p s p' s') : p'.output = p.output := by
  obtain ⟨table, rfl⟩ := h.process
  rfl

end OnlyRedirected

theorem Direction.descriptor_lt_two (direction : Direction) : direction.descriptor < 2 := by
  cases direction <;> decide

theorem Redirect.apply_onlyRedirected (k : Kernel σ) (r : Redirect) (p : Process) (s : σ) :
    OnlyRedirected k p s (r.apply k p s).2.1 (r.apply k p s).2.2 := by
  rcases apply_cases k r p s with ⟨failure, -, happly⟩ | ⟨handle, fd, table, s', hfile, hinsert, happly⟩
  · rw [happly]
    exact .refl k p s
  · rw [happly]
    refine ⟨⟨[⟨r, handle⟩], .cons hfile (.nil s')⟩, ⟨_, rfl⟩, fun other hother => ?_⟩
    have hlt := r.direction.descriptor_lt_two
    exact Table.get?_install_insert_of_ne hinsert (by omega)

/-- However far redirections come, they open files, and leave alone what is no standard input or output. -/
theorem Redirect.applyAll_onlyRedirected (k : Kernel σ) (redirects : List Redirect) (p : Process) (s : σ) :
    OnlyRedirected k p s (applyAll k redirects p s).2.1 (applyAll k redirects p s).2.2 := by
  induction redirects generalizing p s with
  | nil => exact .refl k p s
  | cons r rest ih =>
    have happly := apply_onlyRedirected k r p s
    rw [applyAll]
    generalize r.apply k p s = applied at happly ⊢
    obtain ⟨result, p', s'⟩ := applied
    cases result with
    | error e => exact happly
    | ok done => exact happly.trans (ih p' s')

theorem resolve_onlyRedirected {k : Kernel σ} {words : List Text} {p p' : Process} {s s' : σ}
    {result : Except RedirectError (List Text)} (h : resolve k words p s = (result, p', s')) :
    OnlyRedirected k p s p' s' := by
  obtain ⟨rfl, rfl⟩ : (resolve k words p s).2.1 = p' ∧ (resolve k words p s).2.2 = s' := by
    rw [h]
    exact ⟨rfl, rfl⟩
  unfold resolve
  cases plan words with
  | error e => exact .refl k p s
  | ok planned => exact Redirect.applyAll_onlyRedirected k planned.redirects p s

/-! ## How a child comes out -/

namespace Process

section

variable {k : Kernel σ} {words : List Text} {p p' : Process} {s s' : σ}

theorem runCommand_of_error {e : RedirectError} (h : resolve k words p s = (.error e, p', s')) :
    p.runCommand k words s = (.returned 1, p', p'.write k 2 (diagnostic e.message) s') := by
  unfold runCommand
  rw [h]

theorem runCommand_of_nil (h : resolve k words p s = (.ok [], p', s')) :
    p.runCommand k words s = (.returned 0, p', s') := by
  unfold runCommand
  rw [h]

theorem runCommand_of_launch {command : Text} {rest : List Text} {e : LaunchError}
    (h : resolve k words p s = (.ok (command :: rest), p', s'))
    (hlaunch : p'.launch k (command :: rest) s' = .error e) :
    p.runCommand k words s = (.returned e.exitCode, p', p'.write k 2 (diagnostic e.message) s') := by
  unfold runCommand
  rw [h]
  simp only [hlaunch]

end

/-- A child cannot resolve its words, has no program to start, cannot start it, or starts it. -/
theorem runCommand_cases (k : Kernel σ) (words : List Text) (p : Process) (s : σ) :
    (∃ e p' s', resolve k words p s = (.error e, p', s')) ∨
    (∃ p' s', resolve k words p s = (.ok [], p', s')) ∨
    (∃ command rest e p' s', resolve k words p s = (.ok (command :: rest), p', s') ∧
      p'.launch k (command :: rest) s' = .error e) ∨
    (p.runCommand k words s).1 = .replaced := by
  cases hresolve : resolve k words p s with
  | mk result after =>
    obtain ⟨p', s'⟩ := after
    rcases result with e | _ | ⟨command, rest⟩
    · exact Or.inl ⟨e, p', s', rfl⟩
    · exact Or.inr (Or.inl ⟨p', s', rfl⟩)
    · cases hlaunch : p'.launch k (command :: rest) s' with
      | error e => exact Or.inr (Or.inr (Or.inl ⟨command, rest, e, p', s', rfl, hlaunch⟩))
      | ok started =>
        have hran : (p.runCommand k words s).1 = .replaced := by
          unfold runCommand
          rw [hresolve]
          simp only [hlaunch]
        exact Or.inr (Or.inr (Or.inr hran))

/-! ### Starting the program -/

/-- A word that cannot be passed on is found before the system is asked. -/
theorem launch_nul (k : Kernel σ) {command : Text} {rest : List Text} (p : Process) (s : σ)
    (h : ∃ word ∈ command :: rest, '\x00' ∈ word) :
    p.launch k (command :: rest) s = .error (.nulInWord command) := by
  have hany : ((command :: rest).any fun word => decide ('\x00' ∈ word)) = true := by simpa using h
  unfold launch
  exact if_pos hany

theorem launch_refused {k : Kernel σ} {command : Text} {rest : List Text} {p : Process} {s : σ}
    {errno : Errno} (h : ∀ word ∈ command :: rest, '\x00' ∉ word)
    (hstart : k.start (command :: rest) { p with table := p.table.forExec } s = .error errno) :
    p.launch k (command :: rest) s = .error (.refused command errno) := by
  have hany : ¬ ((command :: rest).any fun word => decide ('\x00' ∈ word)) = true := by simpa using h
  unfold launch
  simp only [if_neg hany, hstart]
  rfl

end Process

theorem LaunchError.exitCode_mem (e : LaunchError) : e.exitCode ∈ [1, 126, 127] := by
  cases e with
  | empty => decide
  | nulInWord command => exact List.mem_cons_self
  | refused command errno =>
    unfold exitCode
    simp only
    split
    · decide
    · split <;> decide

/-! ## Giving up -/

/-- **A child gives up**: it has redirected, no more, writes one diagnostic to where its standard error led at
the beginning, and ends with a code other than 0. Where no output of the interpreter was left to be written,
this is all that it writes until its end. -/
structure GivesUp (k : Kernel σ) (words : List Text) (p : Process) (s : σ) (p' : Process) (s' : σ)
    (message : Text) (code : Nat) : Prop where
  redirected : OnlyRedirected k p s p' s'
  result : p.runCommand k words s = (.returned code, p', p.write k 2 (diagnostic message) s')
  code_mem : code ∈ [1, 126, 127]
  finished : p.output = [] → Process.finish k (p.runCommand k words s) =
    (some (Status.exitWord code), p.write k 2 (diagnostic message) s')

/-- A child that ends with a diagnostic after redirecting gives up. -/
theorem GivesUp.of_result {k : Kernel σ} {words : List Text} {p p' : Process} {s s' : σ} {message : Text}
    {code : Nat} (hredirected : OnlyRedirected k p s p' s') (hcode : code ∈ [1, 126, 127])
    (hran : p.runCommand k words s = (.returned code, p', p'.write k 2 (diagnostic message) s')) :
    GivesUp k words p s p' s' message code := by
  rw [hredirected.write_error] at hran
  refine ⟨hredirected, hran, hcode, fun houtput => ?_⟩
  have hnothing : p'.output = [] := hredirected.output.trans houtput
  rw [hran, Process.finish, Process.flush, hnothing]

section

variable {k : Kernel σ} {words : List Text} {p p' : Process} {s s' : σ}

theorem givesUp_of_error {e : RedirectError} (h : resolve k words p s = (.error e, p', s')) :
    GivesUp k words p s p' s' e.message 1 :=
  .of_result (resolve_onlyRedirected h) (by decide) (Process.runCommand_of_error h)

theorem givesUp_of_launch {command : Text} {rest : List Text} {e : LaunchError}
    (h : resolve k words p s = (.ok (command :: rest), p', s'))
    (hlaunch : p'.launch k (command :: rest) s' = .error e) :
    GivesUp k words p s p' s' e.message e.exitCode :=
  .of_result (resolve_onlyRedirected h) e.exitCode_mem (Process.runCommand_of_launch h hlaunch)

/-- **A child that starts no program has none to start, or gives up.** -/
theorem Process.returned_cases {code : Int} (h : (p.runCommand k words s).1 = .returned code) :
    (code = 0 ∧ ∃ p' s', resolve k words p s = (.ok [], p', s')) ∨
    ∃ (failed : Nat) (message : Text) (p' : Process) (s' : σ), code = failed ∧
      GivesUp k words p s p' s' message failed := by
  rcases runCommand_cases k words p s with
    ⟨e, p', s', hresolve⟩ | ⟨p', s', hresolve⟩ | ⟨command, rest, e, p', s', hresolve, hlaunch⟩ | hreplaced
  · have hgivesUp := givesUp_of_error hresolve
    rw [hgivesUp.result] at h
    exact Or.inr ⟨1, e.message, p', s', (ChildResult.returned.inj h).symm, hgivesUp⟩
  · rw [runCommand_of_nil hresolve] at h
    exact Or.inl ⟨(ChildResult.returned.inj h).symm, p', s', hresolve⟩
  · have hgivesUp := givesUp_of_launch hresolve hlaunch
    rw [hgivesUp.result] at h
    exact Or.inr ⟨e.exitCode, e.message, p', s', (ChildResult.returned.inj h).symm, hgivesUp⟩
  · rw [hreplaced] at h
    exact absurd h (by simp)

/-- A child returns 0 exactly if its redirections succeed and leave no word. -/
theorem Process.returned_zero_iff :
    (p.runCommand k words s).1 = .returned 0 ↔ ∃ planned, plan words = .ok planned ∧ planned.words = [] ∧
      (Redirect.applyAll k planned.redirects p s).1 = .ok () := by
  constructor
  · intro h
    rcases returned_cases h with ⟨-, p', s', hresolve⟩ | ⟨failed, message, p', s', hzero, hgivesUp⟩
    · obtain ⟨planned, hplan, hwords, happly⟩ := resolve_eq_ok_iff.mp hresolve
      exact ⟨planned, hplan, hwords, by rw [happly]⟩
    · have hmem := hgivesUp.code_mem
      rw [← Int.ofNat_inj.mp hzero] at hmem
      exact absurd hmem (by decide)
  · rintro ⟨planned, hplan, hwords, happly⟩
    have hresolve := resolve_eq_ok_iff.mpr ⟨planned, hplan, hwords, Prod.ext happly rfl⟩
    rw [runCommand_of_nil hresolve]

end

/-! ## Without asking the system -/

/-- Whether a program could be started is not asked. -/
def Unasked (k : Kernel σ) (words : List Text) (p : Process) (s : σ) : Prop :=
  ∀ start, p.runCommand { k with start } words s = p.runCommand k words s

/-- Redirections do not depend on what can be started. -/
theorem Redirect.applyAll_start (k : Kernel σ) (start : List Text → Process → σ → Except Errno σ)
    (redirects : List Redirect) (p : Process) (s : σ) :
    applyAll { k with start } redirects p s = applyAll k redirects p s := by
  induction redirects generalizing p s with
  | nil => rfl
  | cons r rest ih =>
    have happly : r.apply { k with start } p s = r.apply k p s := rfl
    rw [applyAll, applyAll, happly]
    simp only [ih]

theorem resolve_start (k : Kernel σ) (start : List Text → Process → σ → Except Errno σ)
    (words : List Text) (p : Process) (s : σ) : resolve { k with start } words p s = resolve k words p s := by
  unfold resolve
  simp only [Redirect.applyAll_start]

section

variable {k : Kernel σ} {words : List Text} {p p' : Process} {s s' : σ}

theorem unasked_of_error {e : RedirectError} (h : resolve k words p s = (.error e, p', s')) :
    Unasked k words p s := by
  intro start
  rw [Process.runCommand_of_error ((resolve_start k start words p s).trans h), Process.runCommand_of_error h]
  rfl

theorem unasked_of_nul {command : Text} {rest : List Text}
    (h : resolve k words p s = (.ok (command :: rest), p', s'))
    (hnul : ∃ word ∈ command :: rest, '\x00' ∈ word) : Unasked k words p s := by
  intro start
  have hresolve := (resolve_start k start words p s).trans h
  rw [Process.runCommand_of_launch hresolve (Process.launch_nul _ p' s' hnul),
    Process.runCommand_of_launch h (Process.launch_nul k p' s' hnul)]
  rfl

end

/-! ## What the interpreter makes of it -/

/-- A child that returns has ended when it is forked, and is still to be waited for. -/
theorem Machine.fork_outcomes {k : Kernel σ} {body : Process → σ → ChildResult × Process × σ}
    {m : Machine σ} {code : Int} (h : (body m.child m.world).1 = .returned code) :
    (m.fork k body).2.outcomes = m.outcomes ++ [.reaped m.nextPid (Status.exitWord code)] := by
  rw [fork_eq]
  generalize body m.child m.world = ran at h
  obtain ⟨result, p', s'⟩ := ran
  obtain rfl : result = .returned code := h
  rfl

/-- **The interpreter sees that its child gave up**: the status is the code that the child ended with, or
that of a failure where it could not wait. No child that ended before has the number of this one. -/
theorem Machine.launcher_returned {k : Kernel σ} {body : ChildBody σ} {command : Command} {m : Machine σ}
    {world : σ} {code : Int} (hfresh : m.nextPid ∉ reapedPids m.outcomes) (hfork : m.Grants k world)
    (h : (body command.words (m.granted k world).child world).1 = .returned code) :
    ((launcher k body).command command m).1 = .exited (code % 256).toNat ∨
      ((launcher k body).command command m).1 = .failure := by
  let forked := ((m.granted k world).fork k (body command.words)).2
  obtain ⟨more, hmore⟩ := await_outcomes k forked
  have hforked : forked.outcomes = m.outcomes ++ [.reaped m.nextPid (Status.exitWord code)] := fork_outcomes h
  rw [hforked, List.append_assoc] at hmore
  have hreap := reapOne_first (Status.exitWord code) more hfresh
  have hran : (m.runSimple k body command).1 =
      (reapOne m.nextPid (forked.await k).outcomes).1.mapError .wait := by
    unfold runSimple
    rw [forkChild_granted hfork]
    rfl
  rw [hmore, List.singleton_append] at hran
  change (settle k (m.runSimple k body command)).1 = _ ∨ (settle k (m.runSimple k body command)).1 = _
  generalize m.runSimple k body command = ran at hran
  obtain ⟨result, m'⟩ := ran
  rcases hreap with hreap | ⟨errno, hreap⟩
  · rw [hreap, Status.ofWord_exitWord] at hran
    obtain rfl : result = .ok (.exited (code % 256).toNat) := hran
    exact Or.inl rfl
  · rw [hreap] at hran
    obtain rfl : result = .error (.wait errno) := hran
    exact Or.inr rfl

/-- A fork that is refused counts as a failed command. -/
theorem Machine.launcher_refused {k : Kernel σ} {body : ChildBody σ} {command : Command} {m : Machine σ}
    {errno : Errno} (hfork : m.Refuses k errno) :
    ((launcher k body).command command m).1 = .failure := by
  change (settle k (m.runSimple k body command)).1 = _
  unfold runSimple
  rw [forkChild_refused hfork]
  rfl

/-- **A command is not launched**: its fork is refused, or its child returns another code than 0. -/
inductive Machine.Unlaunched (k : Kernel σ) (command : Command) (m : Machine σ) : Prop where
  | refused (errno : Errno) (fork : m.Refuses k errno)
  | returned (world : σ) (code : Int) (fork : m.Grants k world)
      (result : (commandBody k command.words (m.granted k world).child world).1 = .returned code)
      (nonzero : code ≠ 0)

/-- The interpreter counts a command that is not launched as failed. -/
theorem Machine.Unlaunched.failed {k : Kernel σ} {command : Command} {m : Machine σ}
    (h : m.Unlaunched k command) (hfresh : m.nextPid ∉ reapedPids m.outcomes) :
    ((Machine.launcher k (commandBody k)).command command m).1.isSuccess = false := by
  cases h with
  | refused errno hfork =>
    rw [launcher_refused hfork]
    rfl
  | returned world code hfork hreturned hcode =>
    rcases Process.returned_cases hreturned with ⟨hzero, -⟩ | ⟨failed, message, p', s', rfl, hgivesUp⟩
    · exact absurd hzero hcode
    · rcases launcher_returned hfresh hfork hreturned with hstatus | hstatus
      · -- none of the three codes is 0, nor cut down to 0
        have hmem := hgivesUp.code_mem
        simp only [List.mem_cons, List.not_mem_nil, or_false] at hmem
        rw [hstatus]
        rcases hmem with rfl | rfl | rfl <;> rfl
      · rw [hstatus]
        rfl

/-- Nothing behind an `&&` is run where what stands before it fails. -/
theorem Segment.run_of_failed {W : Type v} {launcher : Launcher W} {left : Command} {w : W}
    (h : (launcher.command left w).1.isSuccess = false) (rest : List Segment) :
    Segment.run launcher (.conditional (some left) (some rest)) w = launcher.command left w := by
  rw [Segment.run]
  simp only [h]
  exact if_neg Bool.false_ne_true

/-- The interpreter launches nothing behind an `&&` where the command before it is not launched. -/
theorem Machine.chain_stops {k : Kernel σ} {left : Command} {m : Machine σ} (h : m.Unlaunched k left)
    (hfresh : m.nextPid ∉ reapedPids m.outcomes) (rest : List Segment) :
    let launcher := Machine.launcher k (commandBody k)
    let chain : Segment := .conditional (some left) (some rest)
    (launcher.command left m).1.isSuccess = false ∧ chain.run launcher m = launcher.command left m ∧
      (chain.run launcher.recording (m, [])).2.2 = [⟨[left], m⟩] := by
  intro launcher chain
  have hfailed : (launcher.command left m).1.isSuccess = false := h.failed hfresh
  refine ⟨hfailed, Segment.run_of_failed hfailed rest, ?_⟩
  have hrecorded : (launcher.recording.command left (m, [])).1.isSuccess = false := hfailed
  rw [Segment.run_of_failed hrecorded]
  rfl

/-- **A child that could not do its job never looks successful.**

It returns 0 exactly if its redirections succeed and leave no word. It gives up with code 1, without asking
for a program to be started, where its words cannot be resolved, or one of those that are left holds a NUL;
and where the system refuses to start its program, after all redirections, with a code for the refusal.
Whenever it returns another code than 0, it gives up. Then, and where the fork of the child is refused, the
interpreter launches nothing behind an `&&`, provided that no child whose end is still to be waited for has
the number of this one. -/
theorem unlaunched_fails (k : Kernel σ) :
    (∀ words (p : Process) s,
      ((p.runCommand k words s).1 = .returned 0 ↔ ∃ planned, plan words = .ok planned ∧ planned.words = [] ∧
        (Redirect.applyAll k planned.redirects p s).1 = .ok ()) ∧
      (∀ e p' s', resolve k words p s = (.error e, p', s') →
        GivesUp k words p s p' s' e.message 1 ∧ Unasked k words p s) ∧
      (∀ planned command rest p' s', plan words = .ok planned → planned.words = command :: rest →
        Redirect.applyAll k planned.redirects p s = (.ok (), p', s') →
        ((∃ word ∈ planned.words, '\x00' ∈ word) →
          GivesUp k words p s p' s' (LaunchError.nulInWord command).message 1 ∧ Unasked k words p s) ∧
        ∀ errno, (∀ word ∈ planned.words, '\x00' ∉ word) →
          k.start planned.words { p' with table := p'.table.forExec } s' = .error errno →
          GivesUp k words p s p' s' (LaunchError.refused command errno).message
            (if errno = .noEntry then 127 else if errno = .accessDenied then 126 else 1)) ∧
      ∀ code, (p.runCommand k words s).1 = .returned code → code ≠ 0 →
        ∃ (failed : Nat) (message : Text) (p' : Process) (s' : σ), code = failed ∧
          GivesUp k words p s p' s' message failed) ∧
    ∀ (m : Machine σ) left rest, m.nextPid ∉ reapedPids m.outcomes → m.Unlaunched k left →
      let launcher := Machine.launcher k (commandBody k)
      let chain : Segment := .conditional (some left) (some rest)
      (launcher.command left m).1.isSuccess = false ∧ chain.run launcher m = launcher.command left m ∧
        (chain.run launcher.recording (m, [])).2.2 = [⟨[left], m⟩] := by
  refine ⟨fun words p s => ⟨Process.returned_zero_iff, ?_, ?_, ?_⟩, ?_⟩
  · intro e p' s' hresolve
    exact ⟨givesUp_of_error hresolve, unasked_of_error hresolve⟩
  · intro planned command rest p' s' hplan hwords happly
    have hresolve := resolve_eq_ok_iff.mpr ⟨planned, hplan, hwords, happly⟩
    rw [hwords]
    refine ⟨fun hnul => ?_, fun errno hclean hstart => ?_⟩
    · exact ⟨givesUp_of_launch hresolve (Process.launch_nul k p' s' hnul), unasked_of_nul hresolve hnul⟩
    · exact givesUp_of_launch hresolve (Process.launch_refused hclean hstart)
  · intro code hreturned hcode
    rcases Process.returned_cases hreturned with ⟨hzero, -⟩ | hgivesUp
    · exact absurd hzero hcode
    · exact hgivesUp
  · intro m left rest hfresh hunlaunched
    exact Machine.chain_stops hunlaunched hfresh rest

/-- A system that opens every file, writes down what is written, and starts no program. -/
def Kernel.refusing (errno : Errno) : Kernel (List (Handle × Bytes)) where
  openFile _ _ path s := .ok (.file path.length, s)
  newPipe _ := .error .tooManyOpen
  write handle bytes s := s ++ [(handle, bytes)]
  start _ _ _ := .error errno
  await _ _ s := ([], s)

/-- Output goes to a file, but the diagnostic goes where standard error led; and what stands behind the `&&`
is not launched. -/
theorem unlaunched_fails_redirected :
    let k := Kernel.refusing .accessDenied
    let m : Machine (List (Handle × Bytes)) :=
      ⟨⟨2, 1, ⟨[0, 1, 2].map fun id => some ⟨.pipe id .write, false⟩, 8⟩, []⟩, false, [], 10,
        fun _ => .remembered, none, []⟩
    let left : Command := ⟨[['>'], ['f'], ['x']]⟩
    let rest : List Segment := [.simple ⟨[['y']]⟩]
    Process.finish k (m.child.runCommand k left.words m.world) =
        (some (Status.exitWord 126), [(.pipe 2 .write, diagnostic "x: permission denied".toList)]) ∧
      (Segment.run (Machine.launcher k (commandBody k)).recording (.conditional (some left) (some rest))
        (m, [])).2.2 = [⟨[left], m⟩] := by
  intro k m left rest
  obtain ⟨hchild, hchain⟩ := unlaunched_fails k
  obtain ⟨-, -, hlaunch, -⟩ := hchild left.words m.child m.world
  obtain ⟨-, hrefused⟩ := hlaunch ⟨[⟨.output, ['f']⟩], [['x']]⟩ ['x'] [] _ _ rfl rfl rfl
  have hgivesUp := hrefused .accessDenied (by decide) rfl
  refine ⟨hgivesUp.finished rfl, ?_⟩
  have hreturned : (commandBody k left.words (m.granted k m.world).child m.world).1 = .returned 126 :=
    congrArg Prod.fst hgivesUp.result
  exact (hchain m left rest (by decide) (.returned m.world 126 rfl hreturned (by decide))).2.2

end LineShell
