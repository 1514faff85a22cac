import LineShell.Proofs.Kernel.Keep
import LineShell.Proofs.Redirect.Plan

/-!
# What a child starts

The program of a command is the first word that its redirections leave. That need not be its first word:
in `< f cat` it is the third.

* `Process.starts_program`: a child that starts a program starts that of its command, with the words
  that the redirections leave.
* `Command.program?_eq_name?`: where the first word is no operator, it names the program.
-/

namespace LineShell

/-- The program that a command asks for, if its redirections can be planned and leave a word. -/
def Command.program? (c : Command) : Option Text :=
  match plan c.words with
  | .ok planned => planned.words.head?
  | .error _ => none

/-- A command whose first word is no operator asks for the program of that name, or for none. -/
theorem Command.program?_eq_name? {c : Command} {name program : Text} (hname : c.name? = some name)
    (hword : Direction.ofWord? name = none) (hprogram : c.program? = some program) :
    program = name := by
  obtain ⟨words⟩ := c
  cases words with
  | nil => exact absurd hname (by simp [Command.name?])
  | cons first rest =>
    obtain rfl : first = name := by simpa [Command.name?] using hname
    unfold Command.program? at hprogram
    simp only [plan_word hword] at hprogram
    cases hrest : plan rest with
    | error e =>
      rw [hrest] at hprogram
      exact absurd hprogram (by simp [Except.map])
    | ok planned =>
      rw [hrest] at hprogram
      exact (Option.some.inj hprogram).symm

variable {σ : Type u}

/-- Words are resolved exactly if they can be planned and their redirections succeed. -/
theorem resolve_eq_ok_iff {k : Kernel σ} {words left : List Text} {p p' : Process} {s s' : σ} :
    resolve k words p s = (.ok left, p', s') ↔ ∃ planned, plan words = .ok planned ∧
      planned.words = left ∧ Redirect.applyAll k planned.redirects p s = (.ok (), p', s') := by
  unfold resolve
  cases plan words with
  | error e => simp
  | ok planned =>
    cases happly : Redirect.applyAll k planned.redirects p s with
    | mk result after =>
      obtain ⟨p₁, s₁⟩ := after
      cases result <;> simp [Except.map, happly]

/-- **A child starts nothing but the program of its command.** -/
theorem Process.starts_program {k : Kernel σ} {c : Command} {p p' : Process} {s s' : σ}
    (h : p.runCommand k c.words s = (.replaced, p', s')) :
    ∃ program rest s₁, c.program? = some program ∧
      k.start (program :: rest) { p' with table := p'.table.forExec } s₁ = .ok s' := by
  unfold runCommand at h
  cases hresolve : resolve k c.words p s with
  | mk result after =>
    obtain ⟨p₁, s₁⟩ := after
    rw [hresolve] at h
    cases result with
    | error e => exact absurd (congrArg Prod.fst h) (by simp)
    | ok left =>
      obtain ⟨planned, hplan, hleft, -⟩ := resolve_eq_ok_iff.mp hresolve
      cases left with
      | nil => exact absurd (congrArg Prod.fst h) (by simp)
      | cons program rest =>
        have hprogram : c.program? = some program := by
          simp only [Command.program?, hplan, hleft, List.head?_cons]
        simp only at h
        cases hlaunch : p₁.launch k (program :: rest) s₁ with
        | error e =>
          rw [hlaunch] at h
          exact absurd (congrArg Prod.fst h) (by simp)
        | ok started =>
          rw [hlaunch] at h
          obtain ⟨-, h⟩ := Prod.mk.inj h
          obtain ⟨rfl, rfl⟩ := Prod.mk.inj h
          exact ⟨program, rest, s₁, hprogram, launch_eq_ok hlaunch⟩

end LineShell
