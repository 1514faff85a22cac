import LineShell.Proofs.Session.Dispatch
import LineShell.Proofs.Session.Dispatches
import Mathlib.Data.List.TakeWhile

/-!
# The history of a session

Which lines a session has recorded depends on the lines alone, and not on what running them did.

* `Session.Recordable`: a line is no built-in and holds more than white space.
* `Session.recorded`: the recordable lines among those dispatched to be recorded.
* `Session.dispatchAll_history`: over a sequence of dispatches a history of the first lines recorded
  remains one.
* `Session.history_eq_recorded`: so after any dispatches in a new session the entries are the first of the
  lines recorded, as many as the capacity allows, and no later dispatch changes an entry or its number.
-/

namespace LineShell

namespace Text

/-- Blank texts are those of which trimming leaves nothing. -/
theorem trim_eq_nil_iff {s : Text} : trim s = [] ↔ isBlank s = true := by
  have hdrop : s.dropWhile isWhiteSpace = [] ↔ isBlank s = true := by
    rw [List.dropWhile_eq_nil_iff, isBlank, List.all_eq_true]
  unfold trim
  rw [List.reverse_eq_nil_iff, List.dropWhile_eq_nil_iff]
  constructor
  · intro h
    -- trimming on the left stops at a character that is no white space
    cases hs : s.dropWhile isWhiteSpace with
    | nil => exact hdrop.mp hs
    | cons c rest =>
      have hne : s.dropWhile isWhiteSpace ≠ [] := by simp [hs]
      have hfirst := List.head_dropWhile_not isWhiteSpace hne
      rw [h _ (List.mem_reverse.mpr (List.head_mem hne))] at hfirst
      exact absurd hfirst (by simp)
  · intro h c hc
    rw [hdrop.mpr h] at hc
    exact absurd hc (by simp)

end Text

namespace History

/-- A line that is given to the history is added at the end, if it is not blank and there is room. -/
theorem push_eq (h : History) (line : Text) :
    h.push line =
      if Text.trim line ≠ [] ∧ h.entries.length < h.capacity
      then { h with entries := h.entries ++ [line] } else h := by
  have haccepts : h.accepts line = true ↔ Text.trim line ≠ [] ∧ h.entries.length < h.capacity := by
    simp [accepts, Text.trim_eq_nil_iff]
  simp only [push, haccepts]

/-- The whole listing of a history begins with that of any beginning of it. -/
theorem listing_mono {entries later : List Text} (h : entries <+: later) (c d : Nat) :
    listing ⟨entries, c⟩ none <+: listing ⟨later, d⟩ none := by
  obtain ⟨added, rfl⟩ := h
  simp only [listing, numbered, Option.elim_none, List.drop_zero, List.zipIdx_append, List.flatMap_append]
  exact List.prefix_append _ _

end History

namespace Session

variable {W : Type u}

/-- A line that goes to the history where it may be recorded: it is no built-in and holds more than
white space. -/
def Recordable (line : Text) : Prop :=
  Builtin.recognize? line = none ∧ Text.trim line ≠ []

instance : DecidablePred Recordable := fun _ => inferInstanceAs (Decidable (_ ∧ _))

/-- The recordable lines among those dispatched to be recorded, in order. -/
def recorded (lines : List (Text × Bool)) : List Text :=
  (lines.filter fun line => line.2 && Recordable line.1).map Prod.fst

theorem recorded_append (lines more : List (Text × Bool)) :
    recorded (lines ++ more) = recorded lines ++ recorded more := by
  simp only [recorded, List.filter_append, List.map_append]

theorem recorded_singleton (line : Text) (record : Bool) :
    recorded [(line, record)] = if record = true ∧ Recordable line then [line] else [] := by
  by_cases h : record = true ∧ Recordable line
  · rw [if_pos h]
    simp [recorded, h.1, h.2]
  · rw [if_neg h]
    have hdrop : (record && decide (Recordable line)) = false := by simpa using h
    simp [recorded, hdrop]

/-- A dispatch adds its line to the entries or leaves them, whatever running the line does. -/
theorem dispatch_history_eq (host : Host W) (line : Text) (record : Bool) (s : Session) (w : W) :
    (s.dispatch host line record w).1.history =
      if (record = true ∧ Recordable line) ∧ s.history.entries.length < s.history.capacity
      then { s.history with entries := s.history.entries ++ [line] } else s.history := by
  rw [dispatch_history, History.push_eq]
  by_cases hline : record = true ∧ Builtin.recognize? line = none
  · simp [hline, Recordable]
  · rw [if_neg hline, if_neg]
    rintro ⟨⟨hrecord, hbuiltin, -⟩, -⟩
    exact hline ⟨hrecord, hbuiltin⟩

/-- Adding to the first lines of a list, while there are fewer than the capacity, gives the first lines of
the longer list. -/
theorem take_append_singleton (before : List Text) (line : Text) (capacity : Nat) :
    (before ++ [line]).take capacity =
      if (before.take capacity).length < capacity then before.take capacity ++ [line]
      else before.take capacity := by
  rw [List.length_take]
  by_cases hroom : before.length < capacity
  · have hall : (before ++ [line]).length ≤ capacity := by simpa using Nat.succ_le_of_lt hroom
    rw [if_pos (by omega), List.take_of_length_le (Nat.le_of_lt hroom), List.take_of_length_le hall]
  · rw [if_neg (by omega), List.take_append_of_le_length (Nat.not_lt.mp hroom)]

/-- The history after dispatches, from one that holds the first of some lines. -/
theorem dispatchAll_history (host : Host W) (lines : List (Text × Bool)) {s : Session} {w : W}
    {before : List Text} {capacity : Nat} (h : s.history = ⟨before.take capacity, capacity⟩) :
    (dispatchAll host lines s w).1.history =
      ⟨(before ++ recorded lines).take capacity, capacity⟩ := by
  induction lines generalizing s w before with
  | nil => simp [dispatchAll, recorded, h]
  | cons line rest ih =>
    obtain ⟨line, record⟩ := line
    have hstep : (s.dispatch host line record w).1.history =
        ⟨(before ++ recorded [(line, record)]).take capacity, capacity⟩ := by
      rw [dispatch_history_eq, h, recorded_singleton]
      by_cases hline : record = true ∧ Recordable line
      · simp only [hline, true_and, if_true, and_self]
        rw [take_append_singleton]
        split <;> rfl
      · rw [if_neg fun h => hline h.1, if_neg hline, List.append_nil]
    have hrest := ih (w := (s.dispatch host line record w).2) hstep
    rw [List.append_assoc, ← recorded_append] at hrest
    exact hrest

/-- **The history of a session holds the first of the lines to be recorded that are no built-ins and not
blank**, as they were given and up to the capacity, whatever became of running them. What was recorded
stays as it is under its number, and a further dispatch adds its own line at the end or nothing, in
whatever world it happens. -/
theorem history_eq_recorded (host : Host W) (capacity : Nat) (lines : List (Text × Bool)) (w : W) :
    let session := (dispatchAll host lines (start capacity) w).1
    session.history = ⟨(recorded lines).take capacity, capacity⟩ ∧
      session.history.entries.length ≤ capacity ∧
      (∀ more, let later := (dispatchAll host (lines ++ more) (start capacity) w).1
        session.history.entries <+: later.history.entries ∧
          session.history.listing none <+: later.history.listing none) ∧
      ∀ (other : Host W) (line : Text) (record : Bool) (w' : W),
        (session.dispatch other line record w').1.history.entries =
          session.history.entries ++
            if (record = true ∧ Recordable line) ∧ session.history.entries.length < capacity
            then [line] else [] := by
  have hstart : (start capacity).history = ⟨([] : List Text).take capacity, capacity⟩ := by
    simp [start, History.empty]
  have hall (lines : List (Text × Bool)) : (dispatchAll host lines (start capacity) w).1.history =
      ⟨(recorded lines).take capacity, capacity⟩ :=
    dispatchAll_history host lines hstart
  refine ⟨hall lines, ?_, fun more => ?_, fun other line record w' => ?_⟩
  · rw [hall]
    exact List.length_take_le _ _
  · have hextends : (recorded lines).take capacity <+: (recorded (lines ++ more)).take capacity := by
      rw [recorded_append, List.take_append]
      exact List.prefix_append _ _
    simp only [hall]
    exact ⟨hextends, History.listing_mono hextends _ _⟩
  · rw [dispatch_history_eq, hall]
    split
    · rfl
    · exact (List.append_nil _).symm

/-- A line with an operator is no built-in, and a line in which there is nothing to run is not blank. -/
example :
    recorded ([("history", true), ("history | wc", true), ("exit 3", true), (";;", true),
        ("\u3000", true), ("ls", false)].map fun line => (line.1.toList, line.2)) =
      ["history | wc".toList, ";;".toList] := by
  decide

end Session

end LineShell
