import LineShell.Proofs.Session.Dispatch
import LineShell.Session.Interpreter

/-!
# Rounds of the loop

A round asks for a line, reads, and deals with what was read. `Console.rounds` are the rounds one after
another, with nothing to stop them; what ends the loop is told by the events alone.

* `Console.endStatus?`: a run ends at the end of the input, with status 0, and at a line that is an
  `exit`, with the status of that.
* `Console.loop_of_ends`: the loop does the rounds up to the first that ends the run.
* `Console.ends_of_loop`: it does no others, and it comes to an end in no other way.
-/

namespace LineShell

namespace Console

/-- What was read and done in one round. -/
structure Round (W : Type u) where
  /-- The world in which the line is read. -/
  asked : W
  event : ReadEvent
  /-- The world after the read. -/
  read : W
  /-- What the round leaves behind. -/
  after : Session × W

/-- The status that a run ends with at an event, if it ends there. -/
def endStatus? : ReadEvent → Option Int
  | .line line => Builtin.exitStatus? line
  | .interrupted => none
  | .endOfInput => some 0

variable {W : Type u} (console : Console W) (source : Source) (interactive : Bool)

/-- One round: a line that was read is dispatched, to be recorded. -/
def round (s : Session) (w : W) : Round W :=
  let asked := console.ask interactive s.prompt w
  let reading := console.readLine source.descriptor asked
  { asked, event := reading.1, read := reading.2
    after := match reading.1 with
      | .line line => s.dispatch console.toHost line true reading.2
      | .interrupted | .endOfInput => (s, console.endLine interactive reading.2) }

/-- The first rounds, one after another. -/
def rounds : Nat → Session → W → List (Round W)
  | 0, _, _ => []
  | n + 1, s, w =>
    let first := console.round source interactive s w
    first :: rounds n first.after.1 first.after.2

/-- What so many rounds leave behind. -/
def afterRounds : Nat → Session → W → Session × W
  | 0, s, w => (s, w)
  | n + 1, s, w =>
    let first := console.round source interactive s w
    afterRounds n first.after.1 first.after.2

/-- The round after so many. -/
def roundAfter (n : Nat) (s : Session) (w : W) : Round W :=
  let before := console.afterRounds source interactive n s w
  console.round source interactive before.1 before.2

/-- The run ends in the round after so many, and in none before it, with a status. -/
structure EndsAfter (n : Nat) (s : Session) (w : W) (status : Int) : Prop where
  before : ∀ round ∈ console.rounds source interactive n s w, endStatus? round.event = none
  last : endStatus? (console.roundAfter source interactive n s w).event = some status

variable {console source interactive}

/-! ## One round -/

theorem round_after_line {s : Session} {w : W} {line : Text}
    (h : (console.round source interactive s w).event = .line line) :
    (console.round source interactive s w).after =
      s.dispatch console.toHost line true (console.round source interactive s w).read := by
  unfold round at h ⊢
  simp only at h ⊢
  rw [h]

/-- A round in which no line was read leaves the session as it is. -/
theorem round_after_of_no_line {s : Session} {w : W}
    (h : ∀ line, (console.round source interactive s w).event ≠ .line line) :
    (console.round source interactive s w).after =
      (s, console.endLine interactive (console.round source interactive s w).read) := by
  unfold round at h ⊢
  simp only at h ⊢
  cases hevent : (console.readLine source.descriptor (console.ask interactive s.prompt w)).1 with
  | line line => exact absurd hevent (h line)
  | interrupted => rfl
  | endOfInput => rfl

/-- A session goes on after a round that does not end the run. -/
theorem round_shouldExit {s : Session} {w : W} (hs : s.shouldExit = false)
    (h : endStatus? (console.round source interactive s w).event = none) :
    (console.round source interactive s w).after.1.shouldExit = false := by
  cases hevent : (console.round source interactive s w).event with
  | line line =>
    rw [hevent] at h
    change Builtin.exitStatus? line = none at h
    rw [round_after_line hevent, Session.dispatch_shouldExit, hs, h]
    rfl
  | interrupted => rw [round_after_of_no_line (by simp [hevent]), hs]
  | endOfInput => rw [round_after_of_no_line (by simp [hevent]), hs]

/-- The session is over after a round that ends the run before its input has ended. -/
theorem round_over {s : Session} {w : W} {status : Int}
    (h : endStatus? (console.round source interactive s w).event = some status)
    (hend : (console.round source interactive s w).event ≠ .endOfInput) :
    (console.round source interactive s w).after.1.shouldExit = true := by
  cases hevent : (console.round source interactive s w).event with
  | line line =>
    rw [hevent] at h
    change Builtin.exitStatus? line = some status at h
    rw [round_after_line hevent, Session.dispatch_shouldExit, h]
    simp
  | interrupted => rw [hevent] at h; exact absurd h (by simp [endStatus?])
  | endOfInput => exact absurd hevent hend

/-- The status of a run that ends with a round is what the event says. -/
theorem round_finalStatus {s : Session} {w : W} (hs : s.shouldExit = false) {status : Int}
    (h : endStatus? (console.round source interactive s w).event = some status) :
    finalStatus (console.round source interactive s w).after.1 = status := by
  cases hevent : (console.round source interactive s w).event with
  | line line =>
    rw [hevent] at h
    change Builtin.exitStatus? line = some status at h
    rw [round_after_line hevent, finalStatus, Session.dispatch_shouldExit, h,
      Session.dispatch_lastStatus_of_exit console.toHost h]
    simp
  | interrupted => rw [hevent] at h; exact absurd h (by simp [endStatus?])
  | endOfInput =>
    rw [hevent] at h
    rw [round_after_of_no_line (by simp [hevent]), finalStatus, hs]
    exact Option.some.inj h

/-- So many rounds and one more. -/
theorem afterRounds_succ (n : Nat) (s : Session) (w : W) :
    console.afterRounds source interactive (n + 1) s w =
      (console.roundAfter source interactive n s w).after := by
  induction n generalizing s w with
  | zero => rfl
  | succ n ih => exact ih _ _

/-! ## The loop -/

/-- The loop does one round, unless the session is over, and stops there at the end of the input. -/
theorem loop_succ (limit : Nat) (s : Session) (w : W) :
    console.loop source interactive (limit + 1) s w =
      if s.shouldExit then some (s, w)
      else
        let round := console.round source interactive s w
        if round.event = .endOfInput then some round.after
        else console.loop source interactive limit round.after.1 round.after.2 := by
  rw [loop]
  unfold round
  simp only
  split
  · rfl
  · cases hevent : (console.readLine source.descriptor (console.ask interactive s.prompt w)).1 <;> simp

/-- A session that is over stays as it is. -/
theorem loop_of_over {limit : Nat} {s : Session} (hs : s.shouldExit = true) (w : W) :
    console.loop source interactive (limit + 1) s w = some (s, w) := by
  rw [loop_succ, if_pos hs]

/-- The loop ends with a round that ends the run, if it is allowed one more. -/
theorem loop_of_round_ends {limit : Nat} {s : Session} {w : W} (hs : s.shouldExit = false)
    {status : Int} (h : endStatus? (console.round source interactive s w).event = some status) :
    console.loop source interactive (limit + 2) s w =
      some (console.round source interactive s w).after := by
  rw [loop_succ, if_neg (by simp [hs])]
  simp only
  split
  · rfl
  · rename_i hend
    exact loop_of_over (round_over h hend) _

/-- The loop goes on after a round that does not end the run. -/
theorem loop_of_round_goes_on {limit : Nat} {s : Session} {w : W} (hs : s.shouldExit = false)
    (h : endStatus? (console.round source interactive s w).event = none) :
    console.loop source interactive (limit + 1) s w =
      console.loop source interactive limit (console.round source interactive s w).after.1
        (console.round source interactive s w).after.2 := by
  rw [loop_succ, if_neg (by simp [hs])]
  simp only
  rw [if_neg]
  intro hevent
  rw [hevent] at h
  exact absurd h (by simp [endStatus?])

theorem endsAfter_zero {s : Session} {w : W} {status : Int} :
    console.EndsAfter source interactive 0 s w status ↔
      endStatus? (console.round source interactive s w).event = some status :=
  ⟨fun h => h.last, fun h => ⟨by simp [rounds], h⟩⟩

theorem endsAfter_succ {n : Nat} {s : Session} {w : W} {status : Int} :
    console.EndsAfter source interactive (n + 1) s w status ↔
      endStatus? (console.round source interactive s w).event = none ∧
        console.EndsAfter source interactive n (console.round source interactive s w).after.1
          (console.round source interactive s w).after.2 status := by
  constructor
  · intro h
    refine ⟨h.before _ List.mem_cons_self, fun round hround => ?_, h.last⟩
    exact h.before round (List.mem_cons_of_mem _ hround)
  · rintro ⟨hfirst, hrest⟩
    refine ⟨fun round hround => ?_, hrest.last⟩
    rcases List.mem_cons.mp hround with rfl | hround
    · exact hfirst
    · exact hrest.before round hround

/-- **The loop does the rounds up to the first that ends the run**, if that many may be done. -/
theorem loop_of_ends {n limit : Nat} {s : Session} {w : W} (hs : s.shouldExit = false) {status : Int}
    (h : console.EndsAfter source interactive n s w status) (hlimit : n + 1 < limit) :
    console.loop source interactive limit s w =
        some (console.roundAfter source interactive n s w).after ∧
      finalStatus (console.roundAfter source interactive n s w).after.1 = status := by
  induction n generalizing limit s w with
  | zero =>
    obtain ⟨limit, rfl⟩ : ∃ k, limit = k + 2 := ⟨limit - 2, by omega⟩
    have hlast := endsAfter_zero.mp h
    exact ⟨loop_of_round_ends hs hlast, round_finalStatus hs hlast⟩
  | succ n ih =>
    obtain ⟨limit, rfl⟩ : ∃ k, limit = k + 1 := ⟨limit - 1, by omega⟩
    obtain ⟨hfirst, hrest⟩ := endsAfter_succ.mp h
    rw [loop_of_round_goes_on hs hfirst]
    exact ih (round_shouldExit hs hfirst) hrest (by omega)

/-- **The loop ends only where the run does.** -/
theorem ends_of_loop {limit : Nat} {s : Session} {w : W} (hs : s.shouldExit = false)
    {result : Session × W} (h : console.loop source interactive limit s w = some result) :
    ∃ n < limit, ∃ status, console.EndsAfter source interactive n s w status ∧
      result = (console.roundAfter source interactive n s w).after ∧
        finalStatus result.1 = status := by
  induction limit generalizing s w with
  | zero => exact absurd h (by simp [loop])
  | succ limit ih =>
    cases hfirst : endStatus? (console.round source interactive s w).event with
    | none =>
      rw [loop_of_round_goes_on hs hfirst] at h
      obtain ⟨n, hn, status, hends, hresult⟩ := ih (round_shouldExit hs hfirst) h
      exact ⟨n + 1, by omega, status, endsAfter_succ.mpr ⟨hfirst, hends⟩, hresult⟩
    | some status =>
      refine ⟨0, by omega, status, endsAfter_zero.mpr hfirst, ?_⟩
      have hresult : result = (console.round source interactive s w).after := by
        rw [loop_succ, if_neg (by simp [hs])] at h
        simp only at h
        split at h
        · exact (Option.some.inj h).symm
        · rename_i hend
          cases limit with
          | zero => exact absurd h (by simp [loop])
          | succ limit =>
            rw [loop_of_over (round_over hfirst hend)] at h
            exact (Option.some.inj h).symm
      rw [hresult]
      exact ⟨rfl, round_finalStatus hs hfirst⟩

end Console

end LineShell
