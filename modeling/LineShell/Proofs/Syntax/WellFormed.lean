import LineShell.Proofs.Syntax.Segment

/-!
# The lines that can be read

What reading a text can give is described without the reader: a **well-formed** line is made of
well-formed commands, each with 1 to 64 words that are words, and its words hold no operator that would
have cut them.

* A pipeline has 1 to 16 stages, whose words hold no `|`.
* A sequence is not empty. Its words hold no `|`, `;` or `&&`, and what follows an `&&`, at any depth, is
  nothing or a single segment.

`Line.wellFormed_of_parse?`: what a text is read as is well-formed.
-/

namespace LineShell

/-! ## Commands -/

namespace Command

/-- A command that its words spell. -/
structure WellFormed (c : Command) : Prop where
  one_le : 1 ≤ c.words.length
  le_max : c.words.length ≤ 64
  isWord : ∀ word ∈ c.words, word ≠ [] ∧ ∀ d ∈ word, Text.isWordBlank d = false

instance : DecidablePred WellFormed := fun c =>
  decidable_of_iff (1 ≤ c.words.length ∧ c.words.length ≤ 64 ∧
      ∀ word ∈ c.words, word ≠ [] ∧ word.all (!Text.isWordBlank ·) = true)
    ⟨fun ⟨hone, hmax, hword⟩ => ⟨hone, hmax, by simpa using hword⟩,
      fun h => ⟨h.one_le, h.le_max, by simpa using h.isWord⟩⟩

/-- No word holds a bar. -/
def NoBar (c : Command) : Prop := ∀ word ∈ c.words, '|' ∉ word

/-- No word holds an operator. -/
def NoOperator (c : Command) : Prop :=
  ∀ word ∈ c.words, '|' ∉ word ∧ ';' ∉ word ∧ ¬ Text.HoldsAnd word

instance : DecidablePred NoOperator := fun _ =>
  inferInstanceAs (Decidable (∀ word ∈ _, _ ∧ _ ∧ _))

theorem parse?_eq_some_iff {s : Text} {c : Command} :
    parse? s = some c ↔ c.words = (Text.words s).take maxWords ∧ c.words ≠ [] := by
  rw [parse?_eq]
  obtain ⟨words⟩ := c
  cases h : (Text.words s).take maxWords with
  | nil =>
    constructor
    · intro h
      exact absurd h (by simp)
    · exact fun h => absurd h.1 h.2
  | cons word rest =>
    simp only [Option.some.injEq, mk.injEq]
    constructor
    · rintro rfl
      exact ⟨rfl, List.cons_ne_nil word rest⟩
    · exact fun h => h.1.symm

/-- What a text is read as has 1 to 64 words, each of which is a word. -/
theorem wellFormed_of_parse? {s : Text} {c : Command} (h : parse? s = some c) : c.WellFormed := by
  obtain ⟨hwords, hne⟩ := parse?_eq_some_iff.mp h
  refine ⟨List.length_pos_iff.mpr hne, ?_, fun word hword => ?_⟩
  · rw [hwords]
    exact List.length_take_le maxWords (Text.words s)
  · rw [hwords] at hword
    obtain ⟨hword, hblank, -⟩ := Text.mem_pieces (List.mem_of_mem_take hword)
    exact ⟨hword, hblank⟩

/-- The words of a command are stretches of the text that it was read from. -/
theorem infix_of_parse? {s : Text} {c : Command} (h : parse? s = some c) :
    ∀ word ∈ c.words, word <:+: s := by
  intro word hword
  rw [(parse?_eq_some_iff.mp h).1] at hword
  exact (Text.mem_pieces (List.mem_of_mem_take hword)).2.2

theorem noBar_of_parse? {s : Text} (hs : '|' ∉ s) {c : Command} (h : parse? s = some c) : c.NoBar :=
  fun word hword hbar => hs ((infix_of_parse? h word hword).subset hbar)

theorem noOperator_of_parse? {s : Text} (hbar : '|' ∉ s) (hsemicolon : ';' ∉ s)
    (hand : ¬ Text.HoldsAnd s) {c : Command} (h : parse? s = some c) : c.NoOperator := by
  intro word hword
  have hstretch := infix_of_parse? h word hword
  exact ⟨fun h => hbar (hstretch.subset h), fun h => hsemicolon (hstretch.subset h),
    fun h => hand (h.of_stretch hstretch)⟩

/-- A well-formed command has a first word. -/
theorem WellFormed.name? {c : Command} (h : c.WellFormed) : c.name?.isSome := by
  rw [Command.name?, List.isSome_head?, ← List.length_pos_iff]
  exact h.one_le

end Command

/-! ## Segments -/

namespace Segment

/-- A segment that can be read: well-formed commands without operators, and at most one segment after
each `&&`. -/
inductive WellFormed : Segment → Prop where
  | simple {command : Command} : command.WellFormed → command.NoOperator →
      WellFormed (.simple command)
  | unfollowed {left : Option Command} : (∀ c ∈ left, c.WellFormed ∧ c.NoOperator) →
      WellFormed (.conditional left none)
  | followed {left : Option Command} {next : Segment} :
      (∀ c ∈ left, c.WellFormed ∧ c.NoOperator) → WellFormed next →
      WellFormed (.conditional left (some [next]))

/-- What a text without bars and semicolons is read as is well-formed. The induction is on the length of
the text: what follows the first `&&` is a shorter one. -/
theorem wellFormed_of_parse? {s : Text} (hbar : '|' ∉ s) (hsemicolon : ';' ∉ s) {segment : Segment}
    (h : parse? s = some segment) : segment.WellFormed := by
  induction hn : s.length using Nat.strongRecOn generalizing s segment with
  | ind n ih =>
    cases hcut : Text.cutAtAnd s with
    | none =>
      rw [parse?_of_no_cut hcut, Option.map_eq_some_iff] at h
      obtain ⟨command, hcommand, rfl⟩ := h
      exact .simple (Command.wellFormed_of_parse? hcommand)
        (Command.noOperator_of_parse? hbar hsemicolon (Text.cutAtAnd_eq_none_iff.mp hcut) hcommand)
    | some cut =>
      obtain ⟨left, right⟩ := cut
      obtain ⟨hs, hand⟩ := Text.of_cut hcut
      rw [parse?_of_cut hcut] at h
      obtain rfl := Option.some.inj h
      have hleft : ∀ c ∈ Command.parse? left, c.WellFormed ∧ c.NoOperator := fun c hc =>
        ⟨Command.wellFormed_of_parse? hc, Command.noOperator_of_parse?
          (fun h => hbar (hs ▸ List.mem_append_left _ h))
          (fun h => hsemicolon (hs ▸ List.mem_append_left _ h)) hand hc⟩
      have hmem : ∀ {d : Char}, d ∉ s → d ∉ right := fun hd h =>
        hd (Text.mem_of_mem_cut_right hcut h)
      rw [parseAll?_of_not_mem (hmem hsemicolon)]
      cases hnext : parse? right with
      | none => exact .unfollowed hleft
      | some next =>
        have hlt : right.length < n := by
          have := Text.cutAtAnd_length hcut
          omega
        exact .followed hleft (ih right.length hlt (hmem hbar) (hmem hsemicolon) hnext rfl)

mutual

/-- The commands of a segment, left to right. -/
def commands : Segment → List Command
  | .simple command => [command]
  | .conditional left none => left.toList
  | .conditional left (some rest) => left.toList ++ commandsAll rest

/-- The commands of segments, left to right. -/
def commandsAll : List Segment → List Command
  | [] => []
  | segment :: rest => segment.commands ++ commandsAll rest

end

theorem mem_commandsAll {segments : List Segment} {c : Command} :
    c ∈ commandsAll segments ↔ ∃ segment ∈ segments, c ∈ segment.commands := by
  induction segments with
  | nil => simp [commandsAll]
  | cons segment rest ih => simp [commandsAll, ih]

theorem WellFormed.commands {segment : Segment} (h : segment.WellFormed) :
    ∀ c ∈ segment.commands, c.WellFormed := by
  induction h with
  | simple hcommand _ => simpa [Segment.commands] using hcommand
  | unfollowed hleft =>
    intro c hc
    exact (hleft c (Option.mem_toList.mp hc)).1
  | followed hleft _ ih =>
    intro c hc
    rcases List.mem_append.mp hc with hc | hc
    · exact (hleft c (Option.mem_toList.mp hc)).1
    · obtain ⟨next, hnext, hc⟩ := mem_commandsAll.mp hc
      rw [List.mem_singleton.mp hnext] at hc
      exact ih c hc

end Segment

/-! ## Lines -/

namespace Line

/-- A line that can be read. -/
inductive WellFormed : Line → Prop where
  | pipeline {stages : List Command} : 1 ≤ stages.length → stages.length ≤ 16 →
      (∀ c ∈ stages, c.WellFormed ∧ c.NoBar) → WellFormed (.pipeline stages)
  | sequence {segments : List Segment} : segments ≠ [] →
      (∀ segment ∈ segments, segment.WellFormed) → WellFormed (.sequence segments)

/-- The commands of a line, left to right. -/
def commands : Line → List Command
  | .pipeline stages => stages
  | .sequence segments => Segment.commandsAll segments

theorem WellFormed.commands {line : Line} (h : line.WellFormed) :
    ∀ c ∈ line.commands, c.WellFormed := by
  cases h with
  | pipeline _ _ hstages => exact fun c hc => (hstages c hc).1
  | sequence _ hsegments =>
    intro c hc
    obtain ⟨segment, hsegment, hc⟩ := Segment.mem_commandsAll.mp hc
    exact (hsegments segment hsegment).commands c hc

/-- **What a text is read as is well-formed.** -/
theorem wellFormed_of_parse? {s : Text} {line : Line} (h : parse? s = some line) :
    line.WellFormed := by
  rw [parse?_eq] at h
  split at h
  · have hstages : ∀ c ∈ ((Text.piecesAt '|' s).take maxStages).filterMap Command.parse?,
        c.WellFormed ∧ c.NoBar := fun c hc => by
      obtain ⟨piece, hpiece, hparse⟩ := List.mem_filterMap.mp hc
      exact ⟨Command.wellFormed_of_parse? hparse, Command.noBar_of_parse?
        (Text.not_mem_of_mem_piecesAt (List.mem_of_mem_take hpiece)) hparse⟩
    have hlength : (((Text.piecesAt '|' s).take maxStages).filterMap Command.parse?).length ≤ 16 :=
      Nat.le_trans (List.length_filterMap_le _ _) (List.length_take_le maxStages _)
    generalize ((Text.piecesAt '|' s).take maxStages).filterMap Command.parse? = stages at *
    cases stages with
    | nil => exact absurd h (by simp)
    | cons stage rest =>
      obtain rfl := Option.some.inj h
      exact .pipeline (by simp) hlength hstages
  · rename_i hbar
    obtain ⟨segments, hsegments, rfl⟩ := Option.map_eq_some_iff.mp h
    rw [Segment.parseAll?_eq] at hsegments
    simp only at hsegments
    split at hsegments
    · exact absurd hsegments (by simp)
    · rename_i hne
      obtain rfl := Option.some.inj hsegments
      refine .sequence (by simpa using hne) fun segment hsegment => ?_
      obtain ⟨piece, hpiece, hparse⟩ := List.mem_filterMap.mp hsegment
      have hstretch := (Text.mem_pieces hpiece).2.2
      exact Segment.wellFormed_of_parse? (fun h => hbar (hstretch.subset h))
        (Text.not_mem_of_mem_piecesAt hpiece) hparse

end Line

end LineShell
