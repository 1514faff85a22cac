import LineShell.Proofs.Syntax.Segment

/-!
# The limit on stages

The **stages** of a line are the commands between its bars. Where there are only blanks between two bars,
there is none. A pipeline has 16 stages at most, but it is not stages that are counted: the first 16 texts
between the bars are looked at, and a text of blanks takes the place of a stage among them.

* `Line.parse?_of_bar`: what is read of a line with a bar.
* `filterMap_take_prefix` and `filterMap_take_eq_iff`: looking at the first `n` elements of a list gives
  the beginning of the first `n` results; it gives all of them unless an element without a result is
  among the first `n` and one with a result after them.
* `Line.stages_lost_iff`: so a pipeline begins as it should, and loses a stage that is among the first 16
  exactly if there are blanks in front and a stage behind.
-/

namespace LineShell

/-! ## Looking at the first elements of a list -/

section

variable {α β : Type} (f : α → Option β) (l : List α) (n : Nat)

theorem filterMap_eq_append : l.filterMap f = (l.take n).filterMap f ++ (l.drop n).filterMap f := by
  rw [← List.filterMap_append, List.take_append_drop]

theorem length_filterMap_take_le : ((l.take n).filterMap f).length ≤ n := by
  have hresults := List.length_filterMap_le f (l.take n)
  have htaken := List.length_take_le n l
  omega

/-- The results of the first elements are the beginning of the first results. -/
theorem filterMap_take_prefix : (l.take n).filterMap f <+: (l.filterMap f).take n := by
  have hfew := length_filterMap_take_le f l n
  rw [filterMap_eq_append f l n, List.take_append, List.take_of_length_le hfew]
  exact List.prefix_append _ _

/-- **The results of the first elements are the first results** if every one of these elements has a result,
or none of the others does. -/
theorem filterMap_take_eq_iff :
    (l.take n).filterMap f = (l.filterMap f).take n ↔
      (∀ a ∈ l.take n, (f a).isSome) ∨ ∀ a ∈ l.drop n, f a = none := by
  have hfew := length_filterMap_take_le f l n
  have hlost : (l.drop n).filterMap f = [] ↔ ∀ a ∈ l.drop n, f a = none := List.filterMap_eq_nil_iff
  rw [filterMap_eq_append f l n, List.take_append, List.take_of_length_le hfew, List.self_eq_append_right,
    List.take_eq_nil_iff, ← hlost]
  by_cases hback : (l.drop n).filterMap f = []
  · simp only [hback, or_true]
  · have hlong : n < l.length := by
      refine Nat.lt_of_not_le fun hshort => hback ?_
      rw [List.drop_of_length_le hshort]
      rfl
    have htaken : (l.take n).length = n := List.length_take_of_le (Nat.le_of_lt hlong)
    simp only [hback, or_false]
    rw [← List.filterMap_length_eq_length, htaken]
    omega

end

/-! ## Pipelines -/

namespace Line

/-- The stages of a line: the commands between its bars. Blanks spell none. -/
def stages (line : Text) : List Command :=
  (line.splitOn '|').filterMap Command.parse?

/-- The pipeline of some stages, if there is one. -/
def ofStages : List Command → Option Line
  | [] => none
  | stages => some (.pipeline stages)

theorem ofStages_inj {stages others : List Command} : ofStages stages = ofStages others ↔ stages = others := by
  cases stages <;> cases others <;> simp [ofStages]

theorem ofStages_eq_none_iff {stages : List Command} : ofStages stages = none ↔ stages = [] := by
  cases stages <;> simp [ofStages]

/-- The non-empty texts between the bars of a line. -/
def betweenBars (line : Text) : List Text :=
  (line.splitOn '|').filter (· ≠ [])

theorem betweenBars_eq (line : Text) : betweenBars line = Text.piecesAt '|' line :=
  (Text.piecesAt_eq_splitOn '|' line).symm

/-- An empty text spells no stage. -/
theorem filterMap_betweenBars (line : Text) :
    (betweenBars line).filterMap Command.parse? = stages line := by
  unfold betweenBars stages
  rw [List.filterMap_filter]
  congr 1
  funext piece
  by_cases hpiece : piece = []
  · have hnone : Command.parse? piece = none := by
      rw [Command.parse?_eq_none_iff, hpiece, Text.words_nil]
    rw [hpiece] at hnone ⊢
    rw [hnone]
    rfl
  · simp [hpiece]

/-- The stages that are read of a line with a bar are those among the first 16 texts. -/
theorem parse?_of_bar {line : Text} (h : '|' ∈ line) :
    parse? line = ofStages (((betweenBars line).take 16).filterMap Command.parse?) := by
  rw [parse?_eq, if_pos h, betweenBars_eq]
  unfold maxStages
  cases ((Text.piecesAt '|' line).take 16).filterMap Command.parse? <;> rfl

/-- **When the limit on stages loses a stage that it should keep.** What is read of a line with a bar are
the first 16 of its stages, unless there are only blanks in one of the first 16 texts between the bars and
a stage in one that comes after them. Then it is a proper beginning of these stages, which is empty if
there are only blanks in all of the first 16. -/
theorem stages_lost_iff {line : Text} (h : '|' ∈ line) :
    let kept := ((betweenBars line).take 16).filterMap Command.parse?
    parse? line = ofStages kept ∧ kept <+: (stages line).take 16 ∧
      (parse? line ≠ ofStages ((stages line).take 16) ↔
        (∃ text ∈ (betweenBars line).take 16, Text.words text = []) ∧
          ∃ text ∈ (betweenBars line).drop 16, Text.words text ≠ []) ∧
      (parse? line = none ↔ ∀ text ∈ (betweenBars line).take 16, Text.words text = []) := by
  intro kept
  have hparse : parse? line = ofStages kept := parse?_of_bar h
  have hstages := filterMap_betweenBars line
  refine ⟨hparse, ?_, ?_, ?_⟩
  · rw [← hstages]
    exact filterMap_take_prefix Command.parse? (betweenBars line) 16
  · have hblank (text : Text) : (Command.parse? text).isSome ↔ Text.words text ≠ [] := by
      rw [Option.isSome_iff_ne_none, ne_eq, Command.parse?_eq_none_iff]
    rw [hparse, ne_eq, ofStages_inj, ← hstages, filterMap_take_eq_iff, not_or]
    simp only [hblank, Command.parse?_eq_none_iff, Classical.not_forall, Classical.not_not, exists_prop,
      ne_eq]
  · rw [hparse, ofStages_eq_none_iff, List.filterMap_eq_nil_iff]
    simp only [Command.parse?_eq_none_iff]

/-- Blanks before the first bar take the place of the last of 16 stages. -/
theorem stages_lost_iff_blanks_first :
    let line := " |".toList ++ (List.replicate 15 "a|".toList).flatten ++ "b".toList
    '|' ∈ line ∧ (stages line).length = 16 ∧
      parse? line = some (.pipeline (List.replicate 15 ⟨[['a']]⟩)) ∧
      parse? line ≠ ofStages ((stages line).take 16) := by
  intro line
  have hbar : '|' ∈ line := by decide
  obtain ⟨hparse, -, hlost, -⟩ := stages_lost_iff hbar
  exact ⟨hbar, by decide +kernel, hparse.trans rfl,
    hlost.mpr ⟨⟨[' '], by decide +kernel, by decide⟩, ['b'], by decide +kernel, by decide⟩⟩

/-- Behind blanks between 16 bars the only stage of a line is lost, and nothing is left to be run. -/
theorem stage_behind_blanks_lost :
    let line := (List.replicate 16 " |".toList).flatten ++ " echo X".toList
    '|' ∈ line ∧ stages line = [⟨["echo".toList, "X".toList]⟩] ∧ parse? line = none := by
  intro line
  exact ⟨by decide, rfl, rfl⟩

end Line

end LineShell
