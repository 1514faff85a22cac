import LineShell.Text.Basic

/-!
# Lines of a list

A list is cut at the line ends in it. What follows the last one is a line as well, unless it is empty.

* `linesAt`: the lines of a list.
* `lines_induct`: a list is one line without an end, or a line, its end and a list.
* `intercalate_linesAt`: the list is had back from its lines, up to one line end behind the last of them.
* `length_linesAt`: there is a line for each line end, and one more where there is something behind the last.
-/

namespace LineShell

/-- Behind a line end, the list ends so again, or there is nothing more. -/
theorem getLast?_append_cons {α : Type u} {sep : α} (line rest : List α) :
    (line ++ sep :: rest).getLast? = some sep ↔ rest = [] ∨ rest.getLast? = some sep := by
  cases rest with
  | nil => simp
  | cons x rest => simp [List.getLast?_append, List.getLast?_cons]

section

variable {α : Type u} [DecidableEq α] {sep : α}

/-- The lines of a list: the pieces between line ends, the last one left out where it is empty. -/
def linesAt (sep : α) (xs : List α) : List (List α) :=
  let pieces := xs.splitOn sep
  if pieces.getLast? = some [] then pieces.dropLast else pieces

/-- A list is one line without an end, or a line, its end and a list. -/
theorem lines_induct (sep : α) {motive : List α → Prop}
    (unfinished : ∀ line, sep ∉ line → motive line)
    (finished : ∀ line rest, sep ∉ line → motive rest → motive (line ++ sep :: rest))
    (xs : List α) : motive xs := by
  induction hn : xs.length using Nat.strongRecOn generalizing xs with
  | ind n ih =>
    by_cases h : sep ∈ xs
    · obtain ⟨line, rest, rfl, hline⟩ := List.eq_append_cons_of_mem h
      have hlt : rest.length < n := by
        rw [← hn, List.length_append, List.length_cons]
        omega
      exact finished line rest hline (ih rest.length hlt rest rfl)
    · exact unfinished xs h

/-- Without a line end there is one line, or none. -/
theorem linesAt_of_not_mem {line : List α} (h : sep ∉ line) :
    linesAt sep line = if line = [] then [] else [line] := by
  unfold linesAt
  rw [List.splitOn_eq_singleton h]
  simp

/-- A line end closes the line before it. -/
theorem linesAt_append_cons {line : List α} (h : sep ∉ line) (rest : List α) :
    linesAt sep (line ++ sep :: rest) = line :: linesAt sep rest := by
  unfold linesAt
  rw [List.splitOn_append_cons_self_of_not_mem h]
  have hne := List.splitOn_ne_nil sep rest
  simp only
  rw [List.getLast?_cons_of_ne_nil hne, List.dropLast_cons_of_ne_nil hne]
  split <;> rfl

theorem linesAt_eq_nil_iff {xs : List α} : linesAt sep xs = [] ↔ xs = [] := by
  induction xs using lines_induct sep with
  | unfinished line h =>
    rw [linesAt_of_not_mem h]
    simp
  | finished line rest h ih =>
    rw [linesAt_append_cons h]
    simp

/-- **A list is its lines with line ends between them**, and one behind the last of them if it ends so. -/
theorem intercalate_linesAt (sep : α) (xs : List α) :
    [sep].intercalate (linesAt sep xs) ++ (if xs.getLast? = some sep then [sep] else []) = xs := by
  induction xs using lines_induct sep with
  | unfinished line h =>
    have hlast : line.getLast? ≠ some sep := fun hlast => h (List.mem_of_getLast? hlast)
    rw [linesAt_of_not_mem h, if_neg hlast, List.append_nil]
    split
    · rename_i hnil
      rw [hnil]
      rfl
    · exact List.intercalate_singleton
  | finished line rest h ih =>
    rw [linesAt_append_cons h]
    by_cases hrest : rest = []
    · subst hrest
      rw [linesAt_eq_nil_iff.mpr rfl, List.intercalate_singleton,
        if_pos ((getLast?_append_cons line []).mpr (Or.inl rfl))]
    · have hlines : linesAt sep rest ≠ [] := mt linesAt_eq_nil_iff.mp hrest
      rw [List.intercalate_cons_of_ne_nil hlines, List.append_assoc, List.append_assoc]
      simp only [getLast?_append_cons, hrest, false_or]
      rw [ih]
      rfl

/-- There is a line for each line end, and one more where something is left behind the last of them. -/
theorem length_linesAt (sep : α) (xs : List α) :
    (linesAt sep xs).length = xs.count sep + if xs = [] ∨ xs.getLast? = some sep then 0 else 1 := by
  induction xs using lines_induct sep with
  | unfinished line h =>
    have hlast : line.getLast? ≠ some sep := fun hlast => h (List.mem_of_getLast? hlast)
    rw [linesAt_of_not_mem h, List.count_eq_zero_of_not_mem h, Nat.zero_add]
    by_cases hnil : line = []
    · rw [if_pos hnil, if_pos (Or.inl hnil)]
      rfl
    · rw [if_neg hnil, if_neg (not_or.mpr ⟨hnil, hlast⟩)]
      rfl
  | finished line rest h ih =>
    have hne : line ++ sep :: rest ≠ [] := by simp
    rw [linesAt_append_cons h, List.length_cons, ih, List.count_append, List.count_cons_self,
      List.count_eq_zero_of_not_mem h]
    simp only [getLast?_append_cons, hne, false_or]
    omega

end

end LineShell
