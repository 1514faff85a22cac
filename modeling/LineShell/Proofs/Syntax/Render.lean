import LineShell.Proofs.Syntax.WellFormed

/-!
# Writing a line

`Line.render` writes what a line asks for as a text: the words of a command with a blank between them, a
bar after every stage of a pipeline, semicolons between segments, and `&&` after what a conditional begins
with. Blanks stand around each operator, so that it touches no word.

* `Command.parse?_render`, `Segment.parse?_render`: what is written with blanks around it is read back.
* `Line.readable_iff_wellFormed`: the lines that can be read are the well-formed ones, and each is
  read from the text that it is written as.
-/

namespace LineShell

/-- The words with a blank between each two. -/
def Command.render (c : Command) : Text := [' '].intercalate c.words

namespace Segment

mutual

/-- A command, or what a conditional begins with, an `&&`, and the rest. -/
def render : Segment → Text
  | .simple command => command.render
  | .conditional left none => left.elim [] Command.render ++ " && ".toList
  | .conditional left (some rest) => left.elim [] Command.render ++ " && ".toList ++ renderAll rest

/-- Segments with a semicolon between each two. -/
def renderAll : List Segment → Text
  | [] => []
  | [segment] => segment.render
  | segment :: next :: rest => segment.render ++ " ; ".toList ++ renderAll (next :: rest)

end

end Segment

/-- The stages of a pipeline, each followed by a bar, or the segments of a sequence. -/
def Line.render : Line → Text
  | .pipeline stages => stages.flatMap fun stage => stage.render ++ " | ".toList
  | .sequence segments => Segment.renderAll segments

/-- A text of blanks only. -/
def Text.Blanks (s : Text) : Prop := ∀ c ∈ s, Text.isWordBlank c = true

namespace Text

theorem blanks_nil : Blanks [] := fun _ h => absurd h (by simp)

theorem blanks_one : Blanks [' '] := fun c hc => by
  rw [List.mem_singleton.mp hc]
  rfl

theorem Blanks.append {s t : Text} (hs : Blanks s) (ht : Blanks t) : Blanks (s ++ t) := fun c hc =>
  (List.mem_append.mp hc).elim (hs c) (ht c)

/-- No operator is a blank. -/
theorem Blanks.not_mem {s : Text} (h : Blanks s) {c : Char} (hc : isWordBlank c = false) : c ∉ s :=
  fun hmem => by simp [h c hmem] at hc

theorem Blanks.not_holdsAnd {s : Text} (h : Blanks s) : ¬ HoldsAnd s := fun hand =>
  h.not_mem (c := '&') rfl (hand.subset List.mem_cons_self)

/-- Blanks around a text that holds no operator make none. -/
theorem Blanks.not_holdsAnd_padded {before after s : Text} (hbefore : Blanks before)
    (hafter : Blanks after) (hs : ¬ HoldsAnd s) : ¬ HoldsAnd (before ++ s ++ after) := by
  have hblank : ∀ {c : Char}, isWordBlank c = true → c ≠ '&' := by
    rintro c hc rfl
    simp [isWordBlank] at hc
  have hfront : ¬ HoldsAnd (before ++ s) := by
    induction before with
    | nil => exact hs
    | cons c rest ih =>
      have hrest := ih fun d hd => hbefore d (List.mem_cons_of_mem c hd)
      rw [List.cons_append, holdsAnd_cons]
      exact fun h => h.elim (fun h => hblank (hbefore c List.mem_cons_self) h.1) hrest
  cases after with
  | nil => rwa [List.append_nil]
  | cons c rest =>
    rw [holdsAnd_append_cons (hblank (hafter c List.mem_cons_self)), not_or]
    exact ⟨hfront, Blanks.not_holdsAnd fun d hd => hafter d (List.mem_cons_of_mem c hd)⟩

end Text

open Text (Blanks)

/-! ## Commands -/

namespace Command

variable {before after : Text}

/-- What is written of a command holds its words and blanks. -/
theorem mem_render {c : Command} {d : Char} (hd : d ≠ ' ') :
    d ∈ c.render ↔ ∃ word ∈ c.words, d ∈ word := by
  unfold render
  induction c.words with
  | nil => simp
  | cons word rest ih =>
    cases rest with
    | nil => simp
    | cons next rest => simp [List.intercalate_cons_cons, ih, hd]

theorem NoOperator.not_holdsAnd_render {c : Command} (h : c.NoOperator) :
    ¬ Text.HoldsAnd c.render := by
  have hand : ∀ word ∈ c.words, ¬ Text.HoldsAnd word := fun word hword => (h word hword).2.2
  unfold render
  generalize c.words = words at hand
  induction words with
  | nil => exact Text.not_holdsAnd_nil
  | cons word rest ih =>
    have hrest := ih fun other hother => hand other (List.mem_cons_of_mem word hother)
    cases rest with
    | nil => simpa using hand word List.mem_cons_self
    | cons next rest =>
      rw [List.intercalate_cons_cons, List.append_assoc, List.singleton_append,
        Text.holdsAnd_append_cons (by decide), not_or]
      exact ⟨hand word List.mem_cons_self, hrest⟩

theorem WellFormed.render_ne_nil {c : Command} (h : c.WellFormed) : c.render ≠ [] := by
  have hlength := h.one_le
  have hword := h.isWord
  unfold render
  cases hwords : c.words with
  | nil => simp [hwords] at hlength
  | cons word rest =>
    have hne := (hword word (by simp [hwords])).1
    cases rest with
    | nil => simpa using hne
    | cons next rest => simp [List.intercalate_cons_cons]

/-- **A command that is written with blanks around it is read back.** -/
theorem parse?_render {c : Command} (h : c.WellFormed) (hbefore : Blanks before)
    (hafter : Blanks after) : parse? (before ++ c.render ++ after) = some c := by
  have hwords : Text.words (before ++ c.render ++ after) = c.words := by
    unfold Text.words render
    rw [Text.pieces_padded hbefore hafter]
    exact Text.pieces_intercalate rfl h.isWord
  have hall : c.words.take maxWords = c.words := List.take_of_length_le h.le_max
  rw [parse?_eq_some_iff, hwords, hall]
  exact ⟨rfl, List.length_pos_iff.mp h.one_le⟩

/-- Blanks spell no command. -/
theorem parse?_blanks {s : Text} (h : Blanks s) : parse? s = none :=
  parse?_eq_none_iff.mpr (Text.pieces_of_sep h)

/-- What a conditional begins with, be it a command or nothing, is read back. -/
theorem parse?_left {left : Option Command} (h : ∀ c ∈ left, c.WellFormed) (hbefore : Blanks before)
    (hafter : Blanks after) : parse? (before ++ left.elim [] render ++ after) = left := by
  cases left with
  | none =>
    rw [Option.elim_none, List.append_nil]
    exact parse?_blanks (hbefore.append hafter)
  | some c => exact parse?_render (h c rfl) hbefore hafter

end Command

/-! ## Segments -/

namespace Segment

variable {before after : Text}

/-- What is written of a segment holds neither of the operators that separate larger parts. -/
theorem WellFormed.not_mem_render {segment : Segment} (h : segment.WellFormed) :
    '|' ∉ segment.render ∧ ';' ∉ segment.render := by
  have hcommand : ∀ {c : Command}, c.NoOperator → '|' ∉ c.render ∧ ';' ∉ c.render := fun hc => by
    constructor
    · rw [Command.mem_render (by decide)]
      exact fun ⟨word, hword, h⟩ => (hc word hword).1 h
    · rw [Command.mem_render (by decide)]
      exact fun ⟨word, hword, h⟩ => (hc word hword).2.1 h
  have hleft : ∀ {left : Option Command}, (∀ c ∈ left, c.WellFormed ∧ c.NoOperator) →
      '|' ∉ left.elim [] Command.render ∧ ';' ∉ left.elim [] Command.render := fun {left} h => by
    cases left with
    | none => simp
    | some c => exact hcommand (h c rfl).2
  induction h with
  | simple _ hno => exact hcommand hno
  | unfollowed h => simpa [render] using hleft h
  | followed h _ ih => simpa [render, renderAll, ih] using hleft h

theorem WellFormed.render_ne_nil {segment : Segment} (h : segment.WellFormed) :
    segment.render ≠ [] := by
  cases h with
  | simple hc _ => exact hc.render_ne_nil
  | unfollowed _ => simp [render]
  | followed _ _ => simp [render]

/-- A conditional is read back if what follows its `&&` is. -/
theorem parse?_conditional {left : Option Command}
    (hleft : ∀ c ∈ left, c.WellFormed ∧ c.NoOperator) (hbefore : Blanks before) (right : Text) :
    parse? (before ++ left.elim [] Command.render ++ " && ".toList ++ right) =
      some (.conditional left (parseAll? (' ' :: right))) := by
  have hand : ¬ Text.HoldsAnd (before ++ left.elim [] Command.render) := by
    cases left with
    | none => simpa using hbefore.not_holdsAnd
    | some c =>
      have h := hbefore.not_holdsAnd_padded Text.blanks_nil (hleft c rfl).2.not_holdsAnd_render
      rwa [List.append_nil] at h
  have hcut := Text.cutAtAnd_append hand (c := ' ') (by decide) (' ' :: right)
  rw [show before ++ left.elim [] Command.render ++ " && ".toList ++ right =
    before ++ left.elim [] Command.render ++ ' ' :: '&' :: '&' :: ' ' :: right by simp,
    parse?_of_cut hcut, Command.parse?_left (fun c hc => (hleft c hc).1) hbefore Text.blanks_one]

/-- **A segment that is written with blanks around it is read back.** -/
theorem parse?_render {segment : Segment} (h : segment.WellFormed) (hbefore : Blanks before)
    (hafter : Blanks after) : parse? (before ++ segment.render ++ after) = some segment := by
  induction h generalizing before with
  | simple hc hno =>
    have hand := hbefore.not_holdsAnd_padded hafter hno.not_holdsAnd_render
    rw [render, parse?_of_no_cut (Text.cutAtAnd_eq_none_iff.mpr hand),
      Command.parse?_render hc hbefore hafter]
    rfl
  | unfollowed hleft =>
    have hblanks : Blanks (' ' :: after) := Text.blanks_one.append hafter
    have hnone : parseAll? (' ' :: after) = none := by
      rw [parseAll?_of_not_mem (hblanks.not_mem rfl), parse?_of_no_cut
        (Text.cutAtAnd_eq_none_iff.mpr hblanks.not_holdsAnd), Command.parse?_blanks hblanks]
      rfl
    rw [render, ← List.append_assoc, parse?_conditional hleft hbefore, hnone]
  | @followed left next hleft hnext ih =>
    have hsemicolon : ';' ∉ ' ' :: (next.render ++ after) := by
      simp [hnext.not_mem_render.2, hafter.not_mem (c := ';') rfl]
    rw [render, renderAll, ← List.append_assoc, ← List.append_assoc, List.append_assoc _ next.render,
      parse?_conditional hleft hbefore, parseAll?_of_not_mem hsemicolon]
    have hread : parse? (' ' :: (next.render ++ after)) = some next := by
      simpa using ih Text.blanks_one
    rw [hread]
    rfl

/-- A text without semicolons is at most one segment. -/
theorem filterMap_parse?_of_not_mem {s : Text} (h : ';' ∉ s) :
    (Text.piecesAt ';' s).filterMap parse? = (parse? s).toList := by
  by_cases hs : s = []
  · subst hs
    have hnone : parse? [] = none := parse?_eq_none_iff.mpr ⟨rfl, Text.words_nil⟩
    simp [hnone]
  · rw [Text.piecesAt_of_not_mem h hs]
    cases hp : parse? s <;> simp [hp]

/-- The segments that were written are the segments of the pieces. -/
theorem filterMap_parse?_renderAll {segments : List Segment} (h : ∀ segment ∈ segments, segment.WellFormed)
    (hbefore : Blanks before) :
    (Text.piecesAt ';' (before ++ renderAll segments)).filterMap parse? = segments := by
  have hone {segment : Segment} (h : segment.WellFormed) {before after : Text}
      (hbefore : Blanks before) (hafter : Blanks after) :
      (Text.piecesAt ';' (before ++ segment.render ++ after)).filterMap parse? = [segment] := by
    rw [filterMap_parse?_of_not_mem, parse?_render h hbefore hafter]
    · rfl
    · simp [h.not_mem_render.2, hbefore.not_mem (c := ';') rfl, hafter.not_mem (c := ';') rfl]
  induction segments generalizing before with
  | nil =>
    have hnone : parse? before = none := parse?_eq_none_iff.mpr
      ⟨Text.cutAtAnd_eq_none_iff.mpr hbefore.not_holdsAnd, Text.pieces_of_sep hbefore⟩
    rw [renderAll, List.append_nil, filterMap_parse?_of_not_mem (hbefore.not_mem rfl), hnone]
    rfl
  | cons segment rest ih =>
    have hsegment := h segment List.mem_cons_self
    cases rest with
    | nil => simpa [renderAll] using hone hsegment hbefore Text.blanks_nil
    | cons next rest =>
      have hrest := ih (fun other hother => h other (List.mem_cons_of_mem segment hother))
        Text.blanks_one
      rw [renderAll, show before ++ (segment.render ++ " ; ".toList ++ renderAll (next :: rest)) =
        before ++ segment.render ++ [' '] ++ ';' :: ([' '] ++ renderAll (next :: rest)) by simp,
        Text.piecesAt_append_cons, List.filterMap_append, hone hsegment hbefore Text.blanks_one, hrest]
      rfl

theorem not_mem_renderAll {segments : List Segment} (h : ∀ segment ∈ segments, segment.WellFormed) :
    '|' ∉ renderAll segments := by
  induction segments with
  | nil => simp [renderAll]
  | cons segment rest ih =>
    have hsegment := (h segment List.mem_cons_self).not_mem_render.1
    cases rest with
    | nil => simpa [renderAll] using hsegment
    | cons next rest =>
      have hrest := ih fun other hother => h other (List.mem_cons_of_mem segment hother)
      simp [renderAll, hsegment, hrest]

end Segment

/-! ## Lines -/

namespace Line

/-- Of the pieces of a written pipeline, the first ones are the stages and the others spell no command. -/
theorem filterMap_parse?_render {stages : List Command} (h : ∀ c ∈ stages, c.WellFormed ∧ c.NoBar)
    {before : Text} (hbefore : Blanks before) {limit : Nat} (hlimit : stages.length ≤ limit) :
    ((Text.piecesAt '|' (before ++ (pipeline stages).render)).take limit).filterMap Command.parse? =
      stages := by
  induction stages generalizing before limit with
  | nil =>
    rw [render, List.flatMap_nil, List.append_nil, List.filterMap_eq_nil_iff]
    intro piece hpiece
    have hstretch := (Text.mem_pieces (List.mem_of_mem_take hpiece)).2.2
    exact Command.parse?_blanks fun c hc => hbefore c (hstretch.subset hc)
  | cons stage rest ih =>
    obtain ⟨hstage, hbar⟩ := h stage List.mem_cons_self
    obtain ⟨limit, rfl⟩ : ∃ n, limit = n + 1 := ⟨limit - 1, by simp at hlimit; omega⟩
    have hrest := ih (fun other hother => h other (List.mem_cons_of_mem stage hother))
      Text.blanks_one (show rest.length ≤ limit by simpa using hlimit)
    have hfirst : Text.piecesAt '|' (before ++ stage.render ++ [' ']) =
        [before ++ stage.render ++ [' ']] := by
      refine Text.piecesAt_of_not_mem ?_ (by simp)
      simp only [List.mem_append, not_or]
      refine ⟨⟨hbefore.not_mem rfl, ?_⟩, by decide⟩
      rw [Command.mem_render (by decide)]
      exact fun ⟨word, hword, hmem⟩ => hbar word hword hmem
    rw [show before ++ (pipeline (stage :: rest)).render =
      before ++ stage.render ++ [' '] ++ '|' :: ([' '] ++ (pipeline rest).render) by simp [render],
      Text.piecesAt_append_cons, hfirst, List.singleton_append, List.take_succ_cons,
      List.filterMap_cons_some (Command.parse?_render hstage hbefore Text.blanks_one), hrest]

/-- **A line that is written is read back.** -/
theorem parse?_render {line : Line} (h : line.WellFormed) : parse? line.render = some line := by
  cases h with
  | @pipeline stages hone hmax hstages =>
    have hbar : '|' ∈ (Line.pipeline stages).render := by
      cases stages with
      | nil => simp at hone
      | cons stage rest => simp [render]
    have hread := filterMap_parse?_render hstages Text.blanks_nil hmax
    rw [List.nil_append] at hread
    rw [parse?_eq, if_pos hbar, maxStages, hread]
    cases stages with
    | nil => simp at hone
    | cons stage rest => rfl
  | @sequence segments hne hsegments =>
    have hread := Segment.filterMap_parse?_renderAll hsegments Text.blanks_nil
    rw [List.nil_append] at hread
    rw [render, parse?, if_neg (Segment.not_mem_renderAll hsegments), Segment.parseAll?_eq, hread]
    simp [hne]

/-- **The lines that can be read are the well-formed ones, and each is read from what it is written as.**
Every command of such a line has a first word. -/
theorem readable_iff_wellFormed (line : Line) :
    ((∃ s, parse? s = some line) ↔ line.WellFormed) ∧
      (line.WellFormed → parse? line.render = some line) ∧
      (line.WellFormed → ∀ c ∈ line.commands, c.name?.isSome) :=
  ⟨⟨fun ⟨_, h⟩ => wellFormed_of_parse? h, fun h => ⟨line.render, parse?_render h⟩⟩, parse?_render,
    fun h c hc => (h.commands c hc).name?⟩

/-- Words that hold a single `&` beside an `&&`, a conditional that begins with nothing, and one that is
nothing but its `&&`. -/
theorem readable_iff_wellFormed_lone_ampersands :
    let line : Line := .sequence [.conditional (some ⟨[['a', '&'], ['&']]⟩)
      (some [.conditional none (some [.simple ⟨[['&', 'b']]⟩])]), .conditional none none]
    line.WellFormed ∧ line.render = "a& & &&  && &b ;  && ".toList ∧
      parse? "a& & &&  && &b ;  && ".toList = some line := by
  intro line
  have hline : line.WellFormed := by
    refine .sequence (by simp) fun segment hsegment => ?_
    rcases List.mem_cons.mp hsegment with rfl | hsegment
    · refine .followed (fun c hc => ?_) (.followed (by simp) (.simple (by decide) (by decide)))
      obtain rfl := Option.some.inj hc
      exact ⟨by decide, by decide⟩
    · obtain rfl := List.mem_singleton.mp hsegment
      exact .unfollowed (by simp)
  exact ⟨hline, rfl, (readable_iff_wellFormed line).2.1 hline⟩

/-- A pipeline of one stage is told from a command by its bar. -/
example : (Line.pipeline [⟨[['a']]⟩]).render = "a | ".toList := rfl

end Line

end LineShell
