import LineShell.Text.Pieces
import Mathlib.Data.List.Induction

/-!
# Laws of pieces

A separator cuts a text into two whose pieces are independent (`pieces_append_cons`); all else follows.

* `mem_pieces`: a piece is a stretch of the text, not empty and without separators.
* `pieces_eq_nil_iff`: only a text of separators has no pieces.
* `pieces_padded`: separators around a text make no difference to its pieces.
* `pieces_intercalate`: texts that can be pieces, joined by a separator, are the pieces of the whole.
* `collect_eq`: of pieces collected one after another as long as there is room, the first are kept.
-/

namespace LineShell.Text

/-- No part of a split holds a separator. -/
theorem not_sep_of_mem_splitOnP {isSep : Char → Bool} {s piece : Text}
    (h : piece ∈ s.splitOnP isSep) : ∀ c ∈ piece, isSep c = false := by
  induction s generalizing piece with
  | nil => simp_all
  | cons d rest ih =>
    rw [List.splitOnP_cons_eq_if_modifyHead] at h
    split at h
    · rcases List.mem_cons.mp h with rfl | h
      · simp
      · exact ih h
    · rename_i hd
      cases hs : rest.splitOnP isSep with
      | nil => simp [hs] at h
      | cons first others =>
        rw [hs, List.modifyHead_cons] at h
        rcases List.mem_cons.mp h with rfl | h
        · intro c hc
          rcases List.mem_cons.mp hc with rfl | hc
          · simpa using hd
          · exact ih (by simp [hs]) c hc
        · exact ih (by simp [hs, h])

/-- The first part of a split begins the text, and every part is a stretch of it. -/
theorem infix_of_mem_splitOnP {isSep : Char → Bool} {s : Text} :
    (∀ first ∈ (s.splitOnP isSep).head?, first <+: s) ∧
      ∀ part ∈ s.splitOnP isSep, part <:+: s := by
  induction s with
  | nil => simp
  | cons c rest ih =>
    obtain ⟨hfirst, hparts⟩ := ih
    rw [List.splitOnP_cons_eq_if_modifyHead]
    split
    · refine ⟨by simp, fun part hpart => ?_⟩
      rcases List.mem_cons.mp hpart with rfl | hpart
      · exact List.nil_infix
      · exact (hparts part hpart).trans (List.suffix_cons c rest).isInfix
    · cases hs : rest.splitOnP isSep with
      | nil => exact absurd hs (List.splitOnP_ne_nil isSep rest)
      | cons first others =>
        have hcons : c :: first <+: c :: rest :=
          (List.prefix_cons_inj c).mpr (hfirst first (by simp [hs]))
        rw [List.modifyHead_cons]
        refine ⟨by simpa using hcons, fun part hpart => ?_⟩
        rcases List.mem_cons.mp hpart with rfl | hpart
        · exact hcons.isInfix
        · exact (hparts part (by simp [hs, hpart])).trans (List.suffix_cons c rest).isInfix

section

variable {isSep : Char → Bool}

/-- A piece is a stretch of the text, not empty and without separators. -/
theorem mem_pieces {s piece : Text} (h : piece ∈ pieces isSep s) :
    piece ≠ [] ∧ (∀ c ∈ piece, isSep c = false) ∧ piece <:+: s := by
  obtain ⟨hpart, hne⟩ := List.mem_filter.mp h
  exact ⟨by simpa using hne, not_sep_of_mem_splitOnP hpart, infix_of_mem_splitOnP.2 piece hpart⟩

@[simp] theorem pieces_nil : pieces isSep [] = [] := by
  simp [pieces]

/-- **What stands before a separator and what stands after it have their pieces apart.** -/
theorem pieces_append_cons (s : Text) {c : Char} (hc : isSep c = true) (t : Text) :
    pieces isSep (s ++ c :: t) = pieces isSep s ++ pieces isSep t := by
  unfold pieces
  rw [List.splitOnP_append_cons s t hc, List.filter_append]

/-- A text without separators is its own only piece. -/
theorem pieces_of_not_sep {s : Text} (h : ∀ c ∈ s, isSep c = false) (hs : s ≠ []) :
    pieces isSep s = [s] := by
  unfold pieces
  rw [List.splitOnP_eq_singleton h]
  simp [hs]

/-- Separators in front of a text make no difference to its pieces. -/
theorem pieces_blank_append {blank : Text} (h : ∀ c ∈ blank, isSep c = true) (s : Text) :
    pieces isSep (blank ++ s) = pieces isSep s := by
  induction blank with
  | nil => rfl
  | cons c rest ih =>
    have hcut := pieces_append_cons [] (h c List.mem_cons_self) (rest ++ s)
    rw [pieces_nil, List.nil_append, List.nil_append] at hcut
    rw [List.cons_append, hcut]
    exact ih fun d hd => h d (List.mem_cons_of_mem c hd)

/-- A text of separators has no pieces. -/
theorem pieces_of_sep {s : Text} (h : ∀ c ∈ s, isSep c = true) : pieces isSep s = [] := by
  have hall := pieces_blank_append h []
  rwa [List.append_nil, pieces_nil] at hall

/-- Only a text of separators has no pieces. -/
theorem pieces_eq_nil_iff {s : Text} : pieces isSep s = [] ↔ ∀ c ∈ s, isSep c = true := by
  refine ⟨fun h => ?_, pieces_of_sep⟩
  induction s with
  | nil => simp
  | cons c rest ih =>
    by_cases hc : isSep c = true
    · have hcut := pieces_append_cons [] hc rest
      rw [List.nil_append, h, pieces_nil, List.nil_append] at hcut
      exact List.forall_mem_cons.mpr ⟨hc, ih hcut.symm⟩
    · -- the first part of the split begins with the character, so that it is a piece
      unfold pieces at h
      rw [List.splitOnP_cons_eq_if_modifyHead, if_neg hc, List.filter_eq_nil_iff] at h
      cases hs : rest.splitOnP isSep with
      | nil => exact absurd hs (List.splitOnP_ne_nil isSep rest)
      | cons first others =>
        rw [hs, List.modifyHead_cons] at h
        have hfirst := h (c :: first) List.mem_cons_self
        exact absurd rfl hfirst

/-- Separators around a text make no difference to its pieces. -/
theorem pieces_padded {before after : Text} (hbefore : ∀ c ∈ before, isSep c = true)
    (hafter : ∀ c ∈ after, isSep c = true) (s : Text) :
    pieces isSep (before ++ s ++ after) = pieces isSep s := by
  rw [List.append_assoc, pieces_blank_append hbefore]
  cases after with
  | nil => rw [List.append_nil]
  | cons c rest =>
    rw [pieces_append_cons s (hafter c List.mem_cons_self),
      pieces_of_sep fun d hd => hafter d (List.mem_cons_of_mem c hd), List.append_nil]

/-- **Texts that can be pieces are the pieces of what they are joined to by a separator.** -/
theorem pieces_intercalate {c : Char} (hc : isSep c = true) {parts : List Text}
    (h : ∀ part ∈ parts, part ≠ [] ∧ ∀ d ∈ part, isSep d = false) :
    pieces isSep ([c].intercalate parts) = parts := by
  induction parts with
  | nil => simp
  | cons part rest ih =>
    obtain ⟨hne, hpart⟩ := h part List.mem_cons_self
    have hrest := ih fun other hother => h other (List.mem_cons_of_mem part hother)
    cases rest with
    | nil => simpa using pieces_of_not_sep hpart hne
    | cons next rest =>
      rw [List.intercalate_cons_cons, List.append_assoc, List.singleton_append,
        pieces_append_cons part hc, hrest, pieces_of_not_sep hpart hne]
      rfl

end

/-! ## Collecting pieces -/

/-- **What is kept are the first pieces**, as many as there is room for, and all others are counted. -/
theorem collect_eq (limit : Nat) (pieces : List Text) :
    collect limit pieces = (pieces.take limit, pieces.length - limit) := by
  unfold collect
  induction pieces using List.reverseRecOn with
  | nil => simp
  | append_singleton pieces piece ih =>
    rw [List.foldl_append, ih, List.foldl_cons, List.foldl_nil]
    simp only [List.length_take, List.length_append, List.length_singleton]
    by_cases hroom : pieces.length < limit
    · rw [if_pos (by omega), List.take_of_length_le (Nat.le_of_lt hroom),
        List.take_of_length_le (by simp; omega)]
      exact congrArg _ (by omega)
    · rw [if_neg (by omega), List.take_append_of_le_length (by omega)]
      exact congrArg _ (by omega)

theorem collect_kept (limit : Nat) (pieces : List Text) : (collect limit pieces).1 = pieces.take limit :=
  congrArg Prod.fst (collect_eq limit pieces)

/-! ## One separator -/

/-- The pieces between occurrences of a character are the non-empty parts of a split. -/
theorem piecesAt_eq_splitOn (d : Char) (s : Text) : piecesAt d s = (s.splitOn d).filter (· ≠ []) := by
  unfold piecesAt pieces
  rw [List.splitOn_eq_splitOnP]
  refine List.filter_congr fun piece _ => ?_
  cases piece <;> simp

theorem not_mem_of_mem_piecesAt {d : Char} {s piece : Text} (h : piece ∈ piecesAt d s) :
    d ∉ piece := by
  intro hd
  have := (mem_pieces h).2.1 d hd
  simp at this

@[simp] theorem piecesAt_nil (d : Char) : piecesAt d [] = [] :=
  pieces_nil

theorem piecesAt_append_cons (d : Char) (s t : Text) :
    piecesAt d (s ++ d :: t) = piecesAt d s ++ piecesAt d t :=
  pieces_append_cons s (by simp) t

/-- A text without the separator is its own only piece. -/
theorem piecesAt_of_not_mem {d : Char} {s : Text} (hd : d ∉ s) (hs : s ≠ []) :
    piecesAt d s = [s] := by
  refine pieces_of_not_sep (fun c hc => ?_) hs
  have : c ≠ d := fun e => hd (e ▸ hc)
  simpa using this

/-! ## Words -/

@[simp] theorem words_nil : words [] = [] :=
  pieces_nil

end LineShell.Text
