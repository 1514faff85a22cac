import LineShell.Proofs.Text.Pieces
import LineShell.Text.Blank

/-!
# What is cut is what was joined

The **parts** of a text may be joined in many ways: before the first of them, behind the last and between
neighbours there are separators, as many as one likes, but between neighbours one at least. Cutting undoes
all of these.

* `Joined`: a text is some parts with separators around them.
* `pieces_eq_iff_joined`: the pieces of a text are the only parts that it is joined from.
* `flatten_pieces`: put together they are the text without its separators.
* `cuts_at_separators`: all this for a separator character and for the blanks between words.
-/

namespace LineShell.Text

/-- Separators and nothing else, if anything at all. -/
def IsGap (isSep : Char → Bool) (s : Text) : Prop := ∀ c ∈ s, isSep c = true

/-- What can be a piece: not empty, and without separators. -/
def IsPart (isSep : Char → Bool) (s : Text) : Prop := s ≠ [] ∧ ∀ c ∈ s, isSep c = false

/-- A text is some parts in their order, with separators before, behind and between them. -/
inductive Joined (isSep : Char → Bool) : List Text → Text → Prop
  | nothing {gap : Text} (hgap : IsGap isSep gap) : Joined isSep [] gap
  | last {before part after : Text} (hbefore : IsGap isSep before) (hpart : IsPart isSep part)
      (hafter : IsGap isSep after) : Joined isSep [part] (before ++ part ++ after)
  /-- Neighbours have a separator between them. -/
  | next {before part gap rest : Text} {parts : List Text} (hbefore : IsGap isSep before)
      (hpart : IsPart isSep part) (hgap : IsGap isSep gap) (hne : gap ≠ [])
      (hrest : Joined isSep parts rest) : Joined isSep (part :: parts) (before ++ part ++ gap ++ rest)

section

variable {isSep : Char → Bool}

/-! ## Cutting and joining -/

/-- A text has no separators, or it is such a text, a separator, and a text. -/
theorem pieces_induct (isSep : Char → Bool) {motive : Text → Prop}
    (uncut : ∀ s, (∀ c ∈ s, isSep c = false) → motive s)
    (cut : ∀ front c rest, (∀ d ∈ front, isSep d = false) → isSep c = true → motive rest →
      motive (front ++ c :: rest))
    (s : Text) : motive s := by
  suffices h : ∀ front : Text, (∀ c ∈ front, isSep c = false) → motive (front ++ s) by
    exact h [] (by simp)
  induction s with
  | nil =>
    intro front hfront
    rw [List.append_nil]
    exact uncut front hfront
  | cons c rest ih =>
    intro front hfront
    by_cases hc : isSep c = true
    · exact cut front c rest hfront hc (ih [] (by simp))
    · rw [List.append_cons]
      apply ih (front ++ [c])
      intro d hd
      rcases List.mem_append.mp hd with hd | hd
      · exact hfront d hd
      · rw [List.mem_singleton.mp hd]
        exact Bool.not_eq_true _ ▸ hc

/-- A separator in front of a text makes no difference to what it is joined from. -/
theorem Joined.cons {parts : List Text} {s : Text} (h : Joined isSep parts s) {c : Char}
    (hc : isSep c = true) : Joined isSep parts (c :: s) := by
  have hfront {gap : Text} (hgap : IsGap isSep gap) : IsGap isSep (c :: gap) :=
    List.forall_mem_cons.mpr ⟨hc, hgap⟩
  cases h with
  | nothing hgap => exact .nothing (hfront hgap)
  | last hbefore hpart hafter => exact .last (hfront hbefore) hpart hafter
  | next hbefore hpart hgap hne hrest => exact .next (hfront hbefore) hpart hgap hne hrest

/-- **A text is joined from its pieces.** -/
theorem joined_pieces (isSep : Char → Bool) (s : Text) : Joined isSep (pieces isSep s) s := by
  have hnil : IsGap isSep [] := fun c hc => absurd hc (by simp)
  induction s using pieces_induct isSep with
  | uncut s hs =>
    by_cases hempty : s = []
    · subst hempty
      rw [pieces_nil]
      exact .nothing hnil
    · rw [pieces_of_not_sep hs hempty]
      have hjoined := Joined.last hnil ⟨hempty, hs⟩ hnil
      rwa [List.nil_append, List.append_nil] at hjoined
  | cut front c rest hfront hc ih =>
    rw [pieces_append_cons front hc]
    by_cases hempty : front = []
    · subst hempty
      rw [pieces_nil]
      exact ih.cons hc
    · rw [pieces_of_not_sep hfront hempty]
      have hgap : IsGap isSep [c] := fun d hd => List.mem_singleton.mp hd ▸ hc
      have hjoined := Joined.next hnil ⟨hempty, hfront⟩ hgap (by simp) ih
      rwa [List.nil_append, List.append_assoc] at hjoined

/-- **Cutting finds the parts that a text is joined from.** The induction is on how it is joined. -/
theorem pieces_of_joined {parts : List Text} {s : Text} (h : Joined isSep parts s) :
    pieces isSep s = parts := by
  induction h with
  | nothing hgap => exact pieces_of_sep hgap
  | last hbefore hpart hafter =>
    rw [pieces_padded hbefore hafter]
    exact pieces_of_not_sep hpart.2 hpart.1
  | @next before part gap rest parts hbefore hpart hgap hne hrest ih =>
    obtain ⟨c, gap, rfl⟩ := List.exists_cons_of_ne_nil hne
    obtain ⟨hc, hgap⟩ := List.forall_mem_cons.mp hgap
    rw [List.append_assoc, List.append_assoc, pieces_blank_append hbefore, List.cons_append,
      pieces_append_cons part hc, pieces_of_not_sep hpart.2 hpart.1, pieces_blank_append hgap, ih]
    rfl

/-- **The pieces of a text are the parts that it is joined from**, and there are no others. -/
theorem pieces_eq_iff_joined {parts : List Text} {s : Text} :
    pieces isSep s = parts ↔ Joined isSep parts s := by
  constructor
  · rintro rfl
    exact joined_pieces isSep s
  · exact pieces_of_joined

/-- **The pieces put together are the text without its separators.** -/
theorem flatten_pieces (isSep : Char → Bool) (s : Text) :
    (pieces isSep s).flatten = s.filter fun c => !isSep c := by
  have huncut {front : Text} (h : ∀ c ∈ front, isSep c = false) :
      (pieces isSep front).flatten = front.filter fun c => !isSep c := by
    rw [List.filter_eq_self.mpr fun c hc => by rw [h c hc]; rfl]
    by_cases hempty : front = []
    · rw [hempty, pieces_nil]
      rfl
    · rw [pieces_of_not_sep h hempty, List.flatten_singleton]
  induction s using pieces_induct isSep with
  | uncut s hs => exact huncut hs
  | cut front c rest hfront hc ih =>
    rw [pieces_append_cons front hc, List.flatten_append, huncut hfront, ih, List.filter_append,
      List.filter_cons_of_neg (by simp [hc])]

end

/-! ## The blanks between words -/

theorem isWordBlank_iff {c : Char} : isWordBlank c = true ↔ c ∈ [' ', '\t', '\n', '\x0c', '\r'] := by
  simp [isWordBlank, or_assoc]

/-- The white space that does not separate words: the vertical tab, and all that is beyond ASCII. -/
theorem isWordBlank_eq_false_iff {c : Char} (h : isWhiteSpace c = true) :
    isWordBlank c = false ↔ c = '\x0b' ∨ 0x80 ≤ c.toNat := by
  have hchar (d : Char) : c = d ↔ c.toNat = d.toNat := Char.toNat_inj.symm
  rw [← Bool.not_eq_true, isWordBlank_iff]
  simp only [List.mem_cons, List.not_mem_nil, or_false, hchar]
  simp only [isWhiteSpace, Bool.or_eq_true, Bool.and_eq_true, decide_eq_true_eq, beq_iff_eq] at h
  have hchars : ' '.toNat = 0x20 ∧ '\t'.toNat = 0x09 ∧ '\n'.toNat = 0x0A ∧ '\x0b'.toNat = 0x0B ∧
      '\x0c'.toNat = 0x0C ∧ '\r'.toNat = 0x0D := by decide
  omega

/-! ## Both ways to cut -/

/-- A way to cut texts goes by these separators, and by nothing else. -/
structure CutsAt (isSep : Char → Bool) (cut : Text → List Text) : Prop where
  /-- A limit on the pieces keeps the first of them. -/
  limited : ∀ limit s, collect limit (cut s) = ((cut s).take limit, (cut s).length - limit)
  /-- No piece is empty or holds a separator. -/
  isPart : ∀ s, ∀ piece ∈ cut s, IsPart isSep piece
  /-- Nothing is lost but the separators. -/
  flatten : ∀ s, (cut s).flatten = s.filter fun c => !isSep c
  /-- What stands before a separator and what stands behind it are cut by themselves. -/
  append : ∀ front c back, isSep c = true → cut (front ++ [c] ++ back) = cut front ++ cut back
  /-- The pieces of a text are the parts that it is joined from. -/
  joined : ∀ parts s, cut s = parts ↔ Joined isSep parts s

theorem pieces_cutsAt (isSep : Char → Bool) : CutsAt isSep (pieces isSep) where
  limited limit s := collect_eq limit (pieces isSep s)
  isPart s piece h := by
    obtain ⟨hne, hplain, -⟩ := mem_pieces h
    exact ⟨hne, hplain⟩
  flatten s := flatten_pieces isSep s
  append front c back hc := by
    rw [List.append_assoc, List.singleton_append]
    exact pieces_append_cons front hc back
  joined _ _ := pieces_eq_iff_joined

/-- **Texts are cut at separators and nowhere else**: at one character, or, into words, at a space, a tab, a
line feed, a form feed or a carriage return, in any mixture. Other white space is part of words: the
vertical tab, and all that is beyond ASCII. -/
theorem cuts_at_separators :
    (∀ d, CutsAt (· == d) (piecesAt d)) ∧ CutsAt isWordBlank words ∧
      (∀ c, isWordBlank c = true ↔ c ∈ [' ', '\t', '\n', '\x0c', '\r']) ∧
      ∀ c, isWhiteSpace c = true → (isWordBlank c = false ↔ c = '\x0b' ∨ 0x80 ≤ c.toNat) :=
  ⟨fun d => pieces_cutsAt (· == d), pieces_cutsAt isWordBlank, fun _ => isWordBlank_iff,
    fun _ h => isWordBlank_eq_false_iff h⟩

/-- Blanks of every kind, and a vertical tab and an ideographic space in a word. -/
theorem cuts_at_separators_white_space :
    isWhiteSpace '\x0b' = true ∧ isWordBlank '\x0b' = false ∧
      words "\t a\x0b\u3000b\r\n\x0cc ".toList = ["a\x0b\u3000b".toList, ['c']] := by
  obtain ⟨-, hwords, -, hwhite⟩ := cuts_at_separators
  refine ⟨by decide, (hwhite '\x0b' (by decide)).mpr (.inl rfl), (hwords.joined _ _).mpr ?_⟩
  have hlast : Joined isWordBlank [['c']] ([] ++ ['c'] ++ [' ']) :=
    .last (by simp [IsGap]) (by simp [IsPart, isWordBlank]) (by simp [IsGap, isWordBlank])
  have hjoined : Joined isWordBlank ["a\x0b\u3000b".toList, ['c']]
      ("\t ".toList ++ "a\x0b\u3000b".toList ++ "\r\n\x0c".toList ++ ([] ++ ['c'] ++ [' '])) :=
    .next (by simp [IsGap, isWordBlank]) (by simp [IsPart, isWordBlank]) (by simp [IsGap, isWordBlank])
      (by simp) hlast
  exact hjoined

end LineShell.Text
