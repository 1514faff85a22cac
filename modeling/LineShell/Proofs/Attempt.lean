/-!
# Steps that may fail

Steps one after another succeed exactly if each of them does (`bind_eq_ok`), and a step succeeds with
what is made of its result exactly if it does so itself (`map_eq_ok`).
-/

namespace LineShell

variable {ε : Type u} {α : Type v} {β : Type w} {first : Except ε α}

theorem bind_eq_ok {next : α → Except ε β} {b : β} :
    first.bind next = .ok b ↔ ∃ a, first = .ok a ∧ next a = .ok b := by
  cases first with
  | error e => simp [Except.bind]
  | ok a => simp [Except.bind]

theorem map_eq_ok {f : α → β} {b : β} : first.map f = .ok b ↔ ∃ a, first = .ok a ∧ b = f a := by
  cases first with
  | error e => simp [Except.map]
  | ok a => simp [Except.map, eq_comm]

end LineShell
