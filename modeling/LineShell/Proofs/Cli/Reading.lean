import LineShell.Proofs.Cli.Settings

/-!
# Reading spelled command lines

`Cli.parse` reads words from left to right, and keeps a setting pending whose value is the next word.

* `Progress.outcome`: the draft that a reading comes to if it ends where it is.
* `Progress.Makes`: what is read next makes settings, at once or when they are settled.
* `Spells.made`, `Reads.made`: words that spell arguments make the settings that they give, in order;
  so the parser does with a command line what the settings come to (`parse_of_reads`).
-/

namespace LineShell.Cli

/-! ## Settling -/

/-- The draft that a reading comes to if it ends here. -/
def Progress.outcome (p : Progress) : Except UsageError Draft := p.settle.map Progress.draft

/-- An option may come next: no separator was seen, and no option waits for its value. -/
structure Progress.AtOption (p : Progress) : Prop where
  before : p.trailing = false
  complete : ∀ setting, p.pending ≠ some (setting, none)

/-- Settling makes the pending setting, and leaves nothing pending. -/
theorem Progress.settle_ok {p q : Progress} (h : p.settle = .ok q) :
    q.pending = none ∧ q.trailing = p.trailing ∧ q.positional = p.positional := by
  unfold Progress.settle at h
  split at h
  · rename_i hpending
    obtain rfl := Except.ok.inj h
    exact ⟨hpending, rfl, rfl⟩
  · cases h
  · obtain ⟨d, -, rfl⟩ := map_eq_ok.mp h
    exact ⟨rfl, rfl, rfl⟩

theorem Progress.outcome_of_pending {p : Progress} (h : p.pending = none) : p.outcome = .ok p.draft := by
  unfold Progress.outcome Progress.settle
  rw [h]
  rfl

theorem Progress.outcome_of_value {p : Progress} {a : Assignment} (h : p.pending = some (a.1, some a.2)) :
    p.outcome = p.draft.set a.1 a.2 := by
  unfold Progress.outcome Progress.settle
  rw [h]
  simp only
  cases p.draft.set a.1 a.2 <;> rfl

/-- A setting that waits for its value is never made. -/
theorem Progress.outcome_of_waiting {p : Progress} {setting : Setting}
    (h : p.pending = some (setting, none)) : p.outcome = .error .invalidValue := by
  unfold Progress.outcome Progress.settle
  rw [h]
  rfl

/-- The separator does not matter to what a reading comes to. -/
theorem Progress.outcome_trailing (p : Progress) :
    ({ p with trailing := true } : Progress).outcome = p.outcome := by
  unfold Progress.outcome Progress.settle
  rcases p.pending with _ | ⟨setting, _ | value⟩
  · rfl
  · rfl
  · simp only
    cases p.draft.set setting value <;> rfl

theorem Progress.outcome_of_settle {p q : Progress} (h : p.settle = .ok q) : p.outcome = .ok q.draft := by
  unfold Progress.outcome
  rw [h]
  rfl

theorem Progress.outcome_of_error {p : Progress} {e : UsageError} (h : p.settle = .error e) :
    p.outcome = .error e := by
  unfold Progress.outcome
  rw [h]
  rfl

/-- What is read next makes settings: it fails as they do, or else comes to the draft with the settings
made. -/
def Progress.Makes (p : Progress) (assignments : List Assignment) : Except UsageError Progress → Prop
  | .error e => p.outcome.bind (·.setAll assignments) = .error e
  | .ok q => q.outcome = p.outcome.bind (·.setAll assignments)

/-- A setting is made at once, after what is pending. -/
def Progress.now (p : Progress) (a : Assignment) : Except UsageError Progress :=
  p.settle.bind fun q => (q.draft.set a.1 a.2).map fun draft => { q with draft }

/-- A setting is left pending with its value, after what is pending is settled. -/
def Progress.later (p : Progress) (a : Assignment) (positional : Bool) : Except UsageError Progress :=
  p.settle.map fun q => { q with pending := some (a.1, some a.2), positional }

theorem Progress.makes_now (p : Progress) (a : Assignment) : p.Makes [a] (p.now a) := by
  unfold now
  cases hsettle : p.settle with
  | error e => exact congrArg (Except.bind · _) (outcome_of_error hsettle)
  | ok q =>
    have houtcome := outcome_of_settle hsettle
    change p.Makes [a] ((q.draft.set a.1 a.2).map fun draft => { q with draft })
    cases hset : q.draft.set a.1 a.2 with
    | error e =>
      change p.outcome.bind (·.setAll [a]) = .error e
      rw [houtcome]
      change (q.draft.set a.1 a.2).bind _ = _
      rw [hset]
      rfl
    | ok d =>
      have hdone : Progress.outcome { q with draft := d } = .ok d :=
        outcome_of_pending (p := { q with draft := d }) (settle_ok hsettle).1
      change Progress.outcome { q with draft := d } = p.outcome.bind (·.setAll [a])
      rw [houtcome, hdone]
      change _ = (q.draft.set a.1 a.2).bind _
      rw [hset]
      rfl

theorem Progress.makes_later (p : Progress) (a : Assignment) (positional : Bool) :
    p.Makes [a] (p.later a positional) := by
  unfold later
  cases hsettle : p.settle with
  | error e => exact congrArg (Except.bind · _) (outcome_of_error hsettle)
  | ok q =>
    change Progress.outcome { q with pending := some (a.1, some a.2), positional } =
      p.outcome.bind (·.setAll [a])
    rw [outcome_of_settle hsettle, outcome_of_value rfl]
    change q.draft.set a.1 a.2 = (q.draft.set a.1 a.2).bind _
    cases q.draft.set a.1 a.2 <;> rfl

/-- Settings that are made one after another. -/
theorem Progress.Makes.trans {p q : Progress} {a : Assignment} {rest : List Assignment}
    {r : Except UsageError Progress} (h : p.Makes [a] (.ok q)) (h' : q.Makes rest r) :
    p.Makes (a :: rest) r := by
  have hsplit : p.outcome.bind (·.setAll (a :: rest)) = q.outcome.bind (·.setAll rest) := by
    rw [show q.outcome = p.outcome.bind (·.setAll [a]) from h]
    cases p.outcome with
    | error e => rfl
    | ok d =>
      change (d.set a.1 a.2).bind _ = ((d.set a.1 a.2).bind _).bind _
      cases d.set a.1 a.2 <;> rfl
  cases r with
  | error e => exact hsplit.trans h'
  | ok q' => exact Eq.trans h' hsplit.symm

/-- A setting that cannot be made is the end. -/
theorem Progress.Makes.stop {p : Progress} {a : Assignment} {e : UsageError}
    (h : p.Makes [a] (.error e)) (rest : List Assignment) : p.Makes (a :: rest) (.error e) := by
  have hfail : p.outcome.bind (·.setAll [a]) = .error e := h
  change p.outcome.bind (·.setAll (a :: rest)) = .error e
  cases houtcome : p.outcome with
  | error e' =>
    rw [houtcome] at hfail
    exact hfail
  | ok d =>
    rw [houtcome] at hfail
    change (d.set a.1 a.2).bind _ = .error e at hfail
    change (d.set a.1 a.2).bind _ = .error e
    cases hset : d.set a.1 a.2 with
    | error e' =>
      rw [hset] at hfail
      exact hfail
    | ok d' =>
      rw [hset] at hfail
      cases hfail

/-! ## Spelled arguments -/

theorem Progress.take_long {p : Progress} (h : p.trailing = false) {c : Char} (rest : Text) :
    p.take ('-' :: '-' :: c :: rest) = p.takeLong (c :: rest) := by
  unfold Progress.take
  rw [if_neg (by simp [h])]
  rfl

theorem Progress.take_short {p : Progress} (h : p.trailing = false) {c : Char} (hc : c ≠ '-')
    (rest : Text) : p.take ('-' :: c :: rest) = p.takeShort c rest := by
  unfold Progress.take
  rw [if_neg (by simp [h])]
  split
  · rename_i heq
    exact absurd (List.cons.inj (List.cons.inj heq).2).1 hc
  · rename_i heq
    exact absurd (List.cons.inj (List.cons.inj heq).2).1 hc
  · rename_i heq
    obtain ⟨rfl, rfl⟩ := List.cons.inj (List.cons.inj heq).2
    rfl
  · rename_i hnone
    exact absurd rfl (hnone c rest)

/-- A plain word is the value that is waited for, or else a positional argument. -/
theorem Progress.take_plain {p : Progress} (h : p.trailing = false) {word : Text} (hplain : Plain word) :
    p.take word =
      match p.pending with
      | some (setting, none) => .ok { p with pending := some (setting, some word) }
      | _ => p.takePositional word := by
  unfold Progress.take
  rw [if_neg (by simp [h])]
  split
  · exact absurd rfl (hplain '-' [])
  · rename_i body _
    exact absurd rfl (hplain '-' body)
  · rename_i c rest _ _
    exact absurd rfl (hplain c rest)
  · rfl

/-- **The name of a declared option is found**, whatever is attached to it. -/
theorem Progress.take_option {setting : Setting} {name : Text} (hlong : (declared setting).long = some name)
    {p : Progress} (h : p.trailing = false) :
    (∀ value, p.take ("--".toList ++ name ++ '=' :: value) = p.takeFlag (.ofSetting setting) (some value)) ∧
      p.take ("--".toList ++ name) = p.takeFlag (.ofSetting setting) none := by
  obtain ⟨hname, hflag, c, rest, rfl⟩ : '=' ∉ name ∧ Flag.ofLong? name = some (.ofSetting setting) ∧
      ∃ c rest, name = c :: rest := by
    cases setting with
    | script => cases hlong
    | command | historySize | rcfile | norc =>
      obtain rfl := Option.some.inj hlong
      exact ⟨by decide, by decide, _, _, rfl⟩
  have hall : ∀ d ∈ c :: rest, (d != '=') = true := by
    intro d hd
    rw [bne_iff_ne]
    rintro rfl
    exact hname hd
  have hcut (attached : Text) (hattached : attached = [] ∨ ∃ value, attached = '=' :: value) :
      ((c :: rest) ++ attached).takeWhile (· != '=') = c :: rest ∧
        ((c :: rest) ++ attached).dropWhile (· != '=') = attached := by
    rw [List.takeWhile_append_of_pos hall, List.dropWhile_append_of_pos hall]
    rcases hattached with rfl | ⟨value, rfl⟩ <;> simp
  refine ⟨fun value => ?_, ?_⟩
  · obtain ⟨htake, hdrop⟩ := hcut ('=' :: value) (.inr ⟨value, rfl⟩)
    refine (take_long h (rest ++ '=' :: value)).trans ?_
    unfold takeLong
    rw [← List.cons_append, htake, hdrop]
    simp only [hflag]
  · obtain ⟨htake, hdrop⟩ := hcut [] (.inl rfl)
    rw [List.append_nil] at htake hdrop
    refine (take_long h rest).trans ?_
    unfold takeLong
    rw [htake, hdrop]
    simp only [hflag]

/-- **The letter of a declared option is found**, with what is attached to it. -/
theorem Progress.take_letter {setting : Setting} {c : Char} (hshort : (declared setting).short = some c)
    {p : Progress} (h : p.trailing = false) :
    (∀ first rest, first ≠ '=' → p.take ('-' :: c :: first :: rest) =
      p.takeFlag (.ofSetting setting) (some (first :: rest))) ∧
      (∀ value, p.take ('-' :: c :: '=' :: value) = p.takeFlag (.ofSetting setting) (some value)) ∧
      p.take ['-', c] = p.takeFlag (.ofSetting setting) none := by
  cases setting with
  | historySize | rcfile | norc | script => cases hshort
  | command =>
    obtain rfl := Option.some.inj hshort
    refine ⟨fun first rest hfirst => ?_, fun value => take_short h (by decide) _, take_short h (by decide) _⟩
    rw [take_short h (by decide)]
    unfold takeShort
    split
    · rename_i heq
      cases heq
    · rename_i heq
      exact absurd (List.cons.inj heq).1 hfirst
    · rfl

/-- What is known of a reading that went on by one argument. -/
structure Progress.Went (p : Progress) (a : Assignment) (q : Progress) : Prop extends q.AtOption where
  placed : q.positional = true → p.positional = true ∨ a.1 = .script

theorem Progress.went_now {p q : Progress} (hp : p.AtOption) {a : Assignment} (h : p.now a = .ok q) :
    p.Went a q := by
  obtain ⟨p₀, hsettle, hset⟩ := bind_eq_ok.mp h
  obtain ⟨d, -, rfl⟩ := map_eq_ok.mp hset
  obtain ⟨hpending, htrailing, hpositional⟩ := settle_ok hsettle
  refine ⟨⟨htrailing.trans hp.before, fun setting => ?_⟩, fun h => .inl (hpositional ▸ h)⟩
  change p₀.pending ≠ _
  rw [hpending]
  simp

theorem Progress.went_later {p q : Progress} (hp : p.AtOption) {a : Assignment} {positional : Bool}
    (h : p.later a positional = .ok q)
    (hpositional : positional = true → p.positional = true ∨ a.1 = .script) : p.Went a q := by
  obtain ⟨p₀, hsettle, rfl⟩ := map_eq_ok.mp h
  exact ⟨⟨(settle_ok hsettle).2.1.trans hp.before, by simp⟩, hpositional⟩

/-- A value that an option waits for is left pending with it. -/
theorem Progress.take_following {p : Progress} (h : p.trailing = false) (setting : Setting) {value : Text}
    (hplain : Plain value) :
    ((p.settle.map fun q => { q with pending := some (setting, none) }).bind fun q => q.take value) =
      p.later (setting, value) p.positional := by
  unfold later
  cases hsettle : p.settle with
  | error e => rfl
  | ok q =>
    obtain ⟨-, htrailing, hpositional⟩ := settle_ok hsettle
    change Progress.take { q with pending := some (setting, none) } value = .ok _
    rw [take_plain (p := { q with pending := some (setting, none) }) (htrailing.trans h) hplain,
      ← hpositional]

/-- Only the script is told by its place. -/
theorem eq_script_of_long {setting : Setting} (h : (declared setting).long = none) : setting = .script := by
  cases setting with
  | script => rfl
  | command | historySize | rcfile | norc => cases h

theorem foldlM_one (p : Progress) (word : Text) : [word].foldlM Progress.take p = p.take word := by
  simp [List.foldlM_cons]

theorem foldlM_two (p : Progress) (word next : Text) :
    [word, next].foldlM Progress.take p = (p.take word).bind fun q => q.take next := by
  rw [List.foldlM_cons]
  exact bind_congr fun q => foldlM_one q next

/-- **Words that spell an argument make its setting**, at once or when it is settled. -/
theorem Spells.made {setting : Setting} {spelling : List Text} {value : Text}
    (h : Spells (declared setting) spelling value) {p : Progress} (hp : p.AtOption)
    (hplace : setting = .script → p.positional = false) :
    p.Makes [(setting, value)] (spelling.foldlM Progress.take p) ∧
      ∀ q, spelling.foldlM Progress.take p = .ok q → p.Went (setting, value) q := by
  have hnow (hread : spelling.foldlM Progress.take p = p.now (setting, value)) :
      p.Makes [(setting, value)] (spelling.foldlM Progress.take p) ∧
        ∀ q, spelling.foldlM Progress.take p = .ok q → p.Went (setting, value) q := by
    rw [hread]
    exact ⟨p.makes_now _, fun q hq => Progress.went_now hp hq⟩
  have hlater (positional : Bool) (hpositional : positional = true → p.positional = true ∨ setting = .script)
      (hread : spelling.foldlM Progress.take p = p.later (setting, value) positional) :
      p.Makes [(setting, value)] (spelling.foldlM Progress.take p) ∧
        ∀ q, spelling.foldlM Progress.take p = .ok q → p.Went (setting, value) q := by
    rw [hread]
    exact ⟨p.makes_later _ positional, fun q hq => Progress.went_later hp hq hpositional⟩
  have hvalued (hkind : (declared setting).kind ≠ .switch) : Flag.ofSetting setting = .valued setting := by
    cases setting with
    | norc => exact absurd rfl hkind
    | command | historySize | rcfile | script => rfl
  cases h with
  | attached _ hlong hkind =>
    refine hnow ?_
    rw [foldlM_one, (Progress.take_option hlong hp.before).1, hvalued hkind]
    rfl
  | following hlong hkind hplain =>
    refine hlater p.positional .inl ?_
    rw [foldlM_two, (Progress.take_option hlong hp.before).2, hvalued hkind]
    exact Progress.take_following hp.before setting hplain
  | letter hshort hkind hfirst =>
    refine hnow ?_
    rw [foldlM_one, (Progress.take_letter hshort hp.before).1 _ _ hfirst, hvalued hkind]
    rfl
  | letterAttached _ hshort hkind =>
    refine hnow ?_
    rw [foldlM_one, (Progress.take_letter hshort hp.before).2.1, hvalued hkind]
    rfl
  | letterFollowing hshort hkind hplain =>
    refine hlater p.positional .inl ?_
    rw [foldlM_two, (Progress.take_letter hshort hp.before).2.2, hvalued hkind]
    exact Progress.take_following hp.before setting hplain
  | switch hlong hkind =>
    refine hnow ?_
    rw [foldlM_one, (Progress.take_option hlong hp.before).2]
    cases setting with
    | norc => rfl
    | command | historySize | rcfile | script => cases hkind
  | placed hlong hshort hplain =>
    obtain rfl := eq_script_of_long hlong
    refine hlater true (fun _ => .inr rfl) ?_
    rw [foldlM_one, Progress.take_plain hp.before hplain]
    have hplaced : p.takePositional value = p.later (.script, value) true := by
      unfold Progress.takePositional
      rw [hplace rfl]
      rfl
    split
    · rename_i waiting hpending
      exact absurd hpending (hp.complete waiting)
    · exact hplaced

/-! ## Spelled command lines -/

theorem Progress.take_separator {p : Progress} (h : p.trailing = false) :
    p.take "--".toList = .ok { p with trailing := true } := by
  unfold Progress.take
  rw [if_neg (by simp [h])]
  rfl

/-- Behind a separator any word is a positional argument. -/
theorem Progress.take_separated (p : Progress) (h : p.positional = false) (value : Text) :
    ({ p with trailing := true } : Progress).take value =
      ({ p with trailing := true } : Progress).later (.script, value) true := by
  unfold Progress.take Progress.takePositional
  rw [if_pos rfl, h]
  rfl

/-- What is made depends on what has been made only. -/
theorem Progress.Makes.of_outcome {p q : Progress} (hsame : q.outcome = p.outcome)
    {assignments : List Assignment} {r : Except UsageError Progress} (h : q.Makes assignments r) :
    p.Makes assignments r := by
  unfold Makes at h ⊢
  rwa [hsame] at h

theorem Progress.makes_nothing {p q : Progress} (hsame : q.outcome = p.outcome) : p.Makes [] (.ok q) := by
  change q.outcome = p.outcome.bind (·.setAll [])
  rw [hsame]
  cases p.outcome <;> rfl

/-- **A command line makes the settings that it gives**, in order. -/
theorem Reads.made {words : List Text} {given : List Assignment} (h : Reads declared words given)
    {p : Progress} (hp : p.AtOption) (hplace : p.positional = true → ∀ a ∈ given, a.1 ≠ .script) :
    p.Makes given (words.foldlM Progress.take p) := by
  induction h generalizing p with
  | nil => exact Progress.makes_nothing rfl
  | @next setting spelling words value given hspells honce hrest ih =>
    have hfree : setting = .script → p.positional = false := by
      rintro rfl
      exact Bool.eq_false_iff.mpr fun hseen => hplace hseen _ List.mem_cons_self rfl
    obtain ⟨hmakes, hwent⟩ := hspells.made hp hfree
    rw [List.foldlM_append]
    cases hread : spelling.foldlM Progress.take p with
    | error e =>
      rw [hread] at hmakes
      exact hmakes.stop given
    | ok q =>
      rw [hread] at hmakes
      have hq := hwent q hread
      refine hmakes.trans (ih hq.toAtOption fun hseen a ha => ?_)
      rcases hq.placed hseen with hseen | hscript
      · exact hplace hseen a (List.mem_cons_of_mem _ ha)
      · obtain rfl : setting = .script := hscript
        rintro heq
        exact honce rfl a ha (by rw [heq]; rfl)
  | separator =>
    rw [foldlM_one, Progress.take_separator hp.before]
    exact Progress.makes_nothing p.outcome_trailing
  | @separated setting value hlong hshort =>
    obtain rfl := eq_script_of_long hlong
    have hfree : p.positional = false :=
      Bool.eq_false_iff.mpr fun hseen => hplace hseen _ (List.mem_singleton_self _) rfl
    rw [foldlM_two, Progress.take_separator hp.before]
    change p.Makes _ (Progress.take { p with trailing := true } value)
    rw [Progress.take_separated p hfree]
    exact (Progress.makes_later _ _ true).of_outcome p.outcome_trailing

/-- The draft in which nothing is set. -/
def Draft.blank : Draft := ⟨none, none, none, false, none⟩

theorem parse_eq (env : Environment) (words : List Text) :
    parse env words =
      ((words.foldlM Progress.take .start).bind Progress.outcome).bind (·.finish env) := by
  change (words.foldlM Progress.take .start).bind (fun p => p.settle.bind fun p => p.draft.finish env) = _
  cases words.foldlM Progress.take .start with
  | error e => rfl
  | ok p =>
    change p.settle.bind (fun p => p.draft.finish env) = p.outcome.bind _
    unfold Progress.outcome
    cases p.settle <;> rfl

/-- **A command line that spells arguments comes to what its settings come to.** -/
theorem parse_of_reads {words : List Text} {given : List Assignment} (h : Reads declared words given)
    (env : Environment) : parse env words = (Draft.blank.setAll given).bind (·.finish env) := by
  have hmakes := h.made (p := .start) ⟨rfl, by simp [Progress.start]⟩ (by simp [Progress.start])
  rw [parse_eq]
  cases hread : words.foldlM Progress.take .start with
  | error e =>
    rw [hread] at hmakes
    have hfail : Draft.blank.setAll given = .error e := hmakes
    rw [hfail]
    rfl
  | ok p =>
    rw [hread] at hmakes
    have houtcome : p.outcome = Draft.blank.setAll given := hmakes
    rw [← houtcome]
    rfl

end LineShell.Cli
