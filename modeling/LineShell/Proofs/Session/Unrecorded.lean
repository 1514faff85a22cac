import LineShell.Proofs.Session.History
import LineShell.Proofs.Session.Recognize

/-!
# Lines that run unrecorded

The history takes a line for blank that is all white space, and the parser takes a line for blank that is
all ASCII blanks. White space is more than ASCII blanks, and what is between the two is a word.

* `Text.LooksBlank`: a line is white space but not only ASCII blanks.
* `Text.operatorFree_of_isBlank` and `Builtin.recognize?_of_isBlank`: in white space there is no operator,
  and no built-in is asked for.
* `Session.unrecorded_iff`: so a line that looks blank is run as one command and not recorded, and any other
  line that is run is recorded as long as there is room.
-/

namespace LineShell

namespace Text

/-- There is a word in a text that has a character other than the blanks between words. -/
theorem words_ne_nil_iff {s : Text} : words s ≠ [] ↔ ∃ c ∈ s, isWordBlank c = false := by
  unfold words
  rw [ne_eq, pieces_eq_nil_iff, Classical.not_forall]
  constructor
  · rintro ⟨c, h⟩
    obtain ⟨hc, hword⟩ := Classical.not_imp.mp h
    exact ⟨c, hc, by simpa using hword⟩
  · rintro ⟨c, hc, hword⟩
    exact ⟨c, fun h => by simp [h hc] at hword⟩

/-- A text that is white space and holds a character that is none of the blanks between words. -/
def LooksBlank (s : Text) : Prop :=
  isBlank s = true ∧ ∃ c ∈ s, isWordBlank c = false

instance : DecidablePred LooksBlank := fun s =>
  decidable_of_iff (isBlank s = true ∧ (s.any fun c => !isWordBlank c) = true) (by simp [LooksBlank])

theorem LooksBlank.words_ne_nil {s : Text} (h : LooksBlank s) : words s ≠ [] :=
  words_ne_nil_iff.mpr h.2

theorem LooksBlank.of_blank {s : Text} (hblank : isBlank s = true) (hwords : words s ≠ []) : LooksBlank s :=
  ⟨hblank, words_ne_nil_iff.mp hwords⟩

/-- In white space there is no operator. -/
theorem operatorFree_of_isBlank {s : Text} (h : isBlank s = true) : OperatorFree s := by
  have hwhite : ∀ c ∈ s, isWhiteSpace c = true := List.all_eq_true.mp h
  refine ⟨fun hbar => ?_, fun hsemicolon => ?_, fun hand => ?_⟩
  · exact absurd (hwhite '|' hbar) (by decide)
  · exact absurd (hwhite ';' hsemicolon) (by decide)
  · have hmem : '&' ∈ s := List.IsInfix.subset hand List.mem_cons_self
    exact absurd (hwhite '&' hmem) (by decide)

end Text

namespace Builtin

/-- The name of a built-in begins with a letter. -/
theorem name_visible (builtin : Builtin) : ∃ c ∈ builtin.name, Text.isWhiteSpace c = false := by
  cases builtin with
  | exit _ => exact ⟨'e', (by decide : 'e' ∈ "exit".toList), by decide⟩
  | history _ => exact ⟨'h', (by decide : 'h' ∈ "history".toList), by decide⟩

/-- White space asks for no built-in. -/
theorem recognize?_of_isBlank {line : Text} (h : Text.isBlank line = true) : recognize? line = none := by
  refine Option.eq_none_iff_forall_ne_some.mpr fun builtin hbuiltin => ?_
  obtain ⟨hname, -⟩ := (recognize?_of_operatorFree (Text.operatorFree_of_isBlank h) builtin).mp hbuiltin
  have hpiece : builtin.name ∈ Text.words line := List.mem_of_getElem? hname
  obtain ⟨-, -, hstretch⟩ := Text.mem_pieces hpiece
  obtain ⟨c, hc, hvisible⟩ := builtin.name_visible
  have hwhite : Text.isWhiteSpace c = true := List.all_eq_true.mp h c (hstretch.subset hc)
  rw [hvisible] at hwhite
  exact Bool.noConfusion hwhite

end Builtin

namespace Session

variable {W : Type u}

/-- A line that looks blank is launched as one command. -/
theorem launches_of_looksBlank (host : Host W) {line : Text} (h : line.LooksBlank) (record : Bool)
    (s : Session) (w : W) :
    ∃ command, Command.parse? line = some command ∧
      s.launches host line record w = [⟨[command], w⟩] := by
  have hparse : Command.parse? line ≠ none := fun hnone =>
    h.words_ne_nil (Command.parse?_eq_none_iff.mp hnone)
  obtain ⟨command, hcommand⟩ := Option.ne_none_iff_exists'.mp hparse
  refine ⟨command, hcommand, ?_⟩
  rw [launches_of_operatorFree host (Text.operatorFree_of_isBlank h.1), Builtin.recognize?_of_isBlank h.1,
    hcommand]

/-- A line of which something is launched is recordable, or it looks blank. -/
theorem recordable_or_looksBlank {host : Host W} {line : Text} {record : Bool} {s : Session} {w : W}
    (h : s.launches host line record w ≠ []) : Recordable line ∨ line.LooksBlank := by
  have hbuiltin : Builtin.recognize? line = none := by
    refine Option.eq_none_iff_forall_ne_some.mpr fun builtin hbuiltin => ?_
    exact h (launches_of_builtin host hbuiltin record s w)
  by_cases hblank : Text.isBlank line = true
  · right
    refine Text.LooksBlank.of_blank hblank fun hwords => h ?_
    rw [launches_of_operatorFree host (Text.operatorFree_of_isBlank hblank), hbuiltin,
      Command.parse?_eq_none_iff.mpr hwords]
  · left
    exact ⟨hbuiltin, fun htrim => hblank (Text.trim_eq_nil_iff.mp htrim)⟩

/-- **Which lines run unrecorded.** A line that is dispatched to be recorded, while there is room, is
launched and yet not added to the history exactly if it looks blank: then it is launched as one command,
and the history stays as it was. -/
theorem unrecorded_iff (host : Host W) (line : Text) {s : Session}
    (hroom : s.history.entries.length < s.history.capacity) (w : W) :
    let later := (s.dispatch host line true w).1.history
    (s.launches host line true w ≠ [] ∧
        later ≠ { s.history with entries := s.history.entries ++ [line] } ↔ line.LooksBlank) ∧
      (line.LooksBlank → later = s.history ∧
        ∃ command, Command.parse? line = some command ∧
          s.launches host line true w = [⟨[command], w⟩]) := by
  intro later
  have hlater : later =
      if (true = true ∧ Recordable line) ∧ s.history.entries.length < s.history.capacity
      then { s.history with entries := s.history.entries ++ [line] } else s.history :=
    dispatch_history_eq host line true s w
  have hkept (h : line.LooksBlank) : later = s.history := by
    rw [hlater, if_neg]
    rintro ⟨⟨-, -, htrim⟩, -⟩
    exact htrim (Text.trim_eq_nil_iff.mpr h.1)
  refine ⟨⟨?_, fun h => ?_⟩, fun h => ⟨hkept h, launches_of_looksBlank host h true s w⟩⟩
  · rintro ⟨hlaunched, hunrecorded⟩
    rcases recordable_or_looksBlank hlaunched with hrecordable | hlooks
    · rw [if_pos ⟨⟨rfl, hrecordable⟩, hroom⟩] at hlater
      exact absurd hlater hunrecorded
    · exact hlooks
  · obtain ⟨command, -, hlaunches⟩ := launches_of_looksBlank host h true s w
    refine ⟨by simp [hlaunches], fun hadded => ?_⟩
    rw [hkept h] at hadded
    have hlength := congrArg (fun history => history.entries.length) hadded
    simp at hlength

/-- An ideographic space looks blank, and the empty history of a new session stays empty. -/
theorem unrecorded_iff_ideographic_space :
    let host := Machine.host .bench (commandBody .bench)
    let m := Bench.machine 9 []
    let line : Text := ['\u3000']
    (start 5).history.entries.length < (start 5).history.capacity ∧ line.LooksBlank ∧
      (start 5).launches host line true m ≠ [] ∧
      ((start 5).dispatch host line true m).1.history = .empty 5 := by
  intro host m line
  have hroom : (start 5).history.entries.length < (start 5).history.capacity := by decide
  have hlooks : line.LooksBlank := by decide
  obtain ⟨hiff, hkept⟩ := unrecorded_iff host line hroom m
  exact ⟨hroom, hlooks, (hiff.mpr hlooks).1, (hkept hlooks).1⟩

/-- A vertical tab is run as a command of that name, and the history is left without it. -/
theorem vertical_tab_unrecorded :
    let host := Machine.host .bench (commandBody .bench)
    let m := Bench.machine 9 []
    let line : Text := ['\x0b']
    (start 5).history.entries.length < (start 5).history.capacity ∧
      (start 5).launches host line true m = [⟨[⟨[line]⟩], m⟩] ∧
      ((start 5).dispatch host line true m).1.history.entries ≠ (start 5).history.entries ++ [line] := by
  intro host m line
  have hlooks : line.LooksBlank := by decide
  have hlaunches : (start 5).launches host line true m = [⟨[⟨[line]⟩], m⟩] :=
    launches_of_operatorFree host (Text.operatorFree_of_isBlank hlooks.1) true (start 5) m
  have hkept : ((start 5).dispatch host line true m).1.history = (start 5).history := by
    rw [dispatch_history_eq, if_neg]
    rintro ⟨⟨-, hrecordable⟩, -⟩
    exact absurd hrecordable (by decide)
  refine ⟨by decide, hlaunches, ?_⟩
  rw [hkept]
  decide

end Session

end LineShell
