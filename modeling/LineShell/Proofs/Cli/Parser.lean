import LineShell.Proofs.Cli.Reading

/-!
# The parser keeps the promises

`Cli.parse` takes nothing but what spells arguments, and so it is a parser of the declared arguments
(`parse_documented`).

* `Flag.ofLong?_eq_some`, `Flag.ofShort?_eq_some`: a name that is found is declared.
* `take_cases`: a word that is taken spells an argument, or the beginning of one, or is the separator; so
  what is taken as a whole spells arguments (`exists_reads`).
* `Draft.finish_eq_ok_iff`, `Draft.finish_eq_error`: what settings come to, once all of them are made.
-/

namespace LineShell.Cli

/-! ## What is taken -/

/-- A long name that is found is declared, unless it asks for a text. -/
theorem Flag.ofLong?_eq_some {name : Text} {flag : Flag} (h : Flag.ofLong? name = some flag) :
    flag = .help ∨ flag = .version ∨
      ∃ setting, (declared setting).long = some name ∧ flag = .ofSetting setting := by
  unfold Flag.ofLong? at h
  split at h
  · exact .inl (Option.some.inj h).symm
  · split at h
    · exact .inr (.inl (Option.some.inj h).symm)
    · obtain ⟨setting, hfind, rfl⟩ := Option.map_eq_some_iff.mp h
      have hname := List.find?_some hfind
      exact .inr (.inr ⟨setting, beq_iff_eq.mp hname, rfl⟩)

/-- A letter that is found is declared, unless it asks for a text. -/
theorem Flag.ofShort?_eq_some {c : Char} {flag : Flag} (h : Flag.ofShort? c = some flag) :
    flag = .help ∨ flag = .version ∨
      ∃ setting, (declared setting).short = some c ∧ flag = .ofSetting setting := by
  unfold Flag.ofShort? at h
  split at h
  · exact .inl (Option.some.inj h).symm
  · split at h
    · exact .inr (.inl (Option.some.inj h).symm)
    · obtain ⟨setting, hfind, rfl⟩ := Option.map_eq_some_iff.mp h
      have hname := List.find?_some hfind
      exact .inr (.inr ⟨setting, beq_iff_eq.mp hname, rfl⟩)

/-- An option with a value makes its setting at once, if it takes values; -/
theorem Progress.takeFlag_value {p q : Progress} {setting : Setting} {value : Text}
    (h : p.takeFlag (.ofSetting setting) (some value) = .ok q) :
    (declared setting).kind ≠ .switch ∧ p.now (setting, value) = .ok q := by
  cases setting with
  | norc => cases h
  | command | historySize | rcfile | script => exact ⟨by decide, h⟩

/-- one without either is a switch or waits for its value. -/
theorem Progress.takeFlag_none {p q : Progress} {setting : Setting}
    (h : p.takeFlag (.ofSetting setting) none = .ok q) :
    (declared setting).kind = .switch ∧ p.now (setting, []) = .ok q ∨
      (declared setting).kind ≠ .switch ∧ ∃ p₀, p.settle = .ok p₀ ∧
        q = { p₀ with pending := some (setting, none) } := by
  cases setting with
  | norc => exact .inl ⟨rfl, h⟩
  | command | historySize | rcfile | script =>
    obtain ⟨p₀, hsettle, heq⟩ := bind_eq_ok.mp h
    exact .inr ⟨by decide, p₀, hsettle, (Except.ok.inj heq).symm⟩

/-- Help and version are no reading. -/
theorem Progress.takeFlag_text (p q : Progress) {flag : Flag} (hflag : flag = .help ∨ flag = .version)
    (value : Option Text) : p.takeFlag flag value ≠ .ok q := by
  rcases hflag with rfl | rfl <;> cases value <;> unfold Progress.takeFlag <;> cases p.settle <;> exact nofun

/-- What a word that was taken is, where an option may stand. -/
inductive Taken (p : Progress) (word : Text) (q : Progress) : Prop where
  | separator (hword : word = "--".toList) (hq : q = { p with trailing := true })
  | spelled {setting : Setting} {value : Text} (hspells : Spells (declared setting) [word] value)
      (hq : q.AtOption) (hplaced : setting = .script → p.positional = false ∧ q.positional = true)
      (hseen : p.positional = true → q.positional = true)
  | waiting {setting : Setting}
      (hspells : ∀ value, Plain value → Spells (declared setting) [word, value] value)
      (hpending : q.pending = some (setting, none)) (hbefore : q.trailing = false)
      (hscript : setting ≠ .script) (hseen : q.positional = p.positional)

theorem Progress.positional_now {p q : Progress} {a : Assignment} (h : p.now a = .ok q) :
    q.positional = p.positional := by
  obtain ⟨p₀, hsettle, hset⟩ := bind_eq_ok.mp h
  obtain ⟨d, -, rfl⟩ := map_eq_ok.mp hset
  exact (settle_ok hsettle).2.2

/-- The word of a declared option, with a value attached to it or without one. -/
theorem Taken.of_option {p q : Progress} (hp : p.AtOption) {word : Text} {setting : Setting}
    (hscript : setting ≠ .script) {value : Option Text}
    (h : p.takeFlag (.ofSetting setting) value = .ok q)
    (hvalue : ∀ text, value = some text → (declared setting).kind ≠ .switch →
      Spells (declared setting) [word] text)
    (hnone : value = none →
      ((declared setting).kind = .switch → Spells (declared setting) [word] []) ∧
      ((declared setting).kind ≠ .switch → ∀ text, Plain text →
        Spells (declared setting) [word, text] text)) : Taken p word q := by
  have hnow {text : Text} (hspells : Spells (declared setting) [word] text)
      (hread : p.now (setting, text) = .ok q) : Taken p word q :=
    .spelled hspells (Progress.went_now hp hread).toAtOption (fun heq => absurd heq hscript)
      fun hseen => (Progress.positional_now hread).trans hseen
  cases value with
  | some text =>
    obtain ⟨hkind, hread⟩ := Progress.takeFlag_value h
    exact hnow (hvalue text rfl hkind) hread
  | none =>
    rcases Progress.takeFlag_none h with ⟨hkind, hread⟩ | ⟨hkind, p₀, hsettle, rfl⟩
    · exact hnow ((hnone rfl).1 hkind) hread
    · obtain ⟨-, htrailing, hpositional⟩ := Progress.settle_ok hsettle
      exact .waiting ((hnone rfl).2 hkind) rfl (htrailing.trans hp.before) hscript hpositional

/-- Behind the name of a long word comes nothing, or an equals sign and a value. -/
theorem cut_at_equals (body : Text) :
    body.dropWhile (· != '=') = [] ∧ body = body.takeWhile (· != '=') ∨
      ∃ value, body.dropWhile (· != '=') = '=' :: value ∧
        body = body.takeWhile (· != '=') ++ '=' :: value := by
  have hsplit : body.takeWhile (· != '=') ++ body.dropWhile (· != '=') = body :=
    List.takeWhile_append_dropWhile
  cases hdrop : body.dropWhile (· != '=') with
  | nil =>
    rw [hdrop, List.append_nil] at hsplit
    exact .inl ⟨rfl, hsplit.symm⟩
  | cons c value =>
    have hhead := List.head_dropWhile_not (· != '=') (hdrop ▸ List.cons_ne_nil c value)
    simp only [hdrop, List.head_cons, bne_eq_false_iff_eq] at hhead
    obtain rfl := hhead
    rw [hdrop] at hsplit
    exact .inr ⟨value, rfl, hsplit.symm⟩

/-- A long word that is taken names a declared option, with a value attached to it or without one. -/
theorem Progress.takeLong_cases {p q : Progress} {body : Text} (h : p.takeLong body = .ok q) :
    ∃ setting name value, (declared setting).long = some name ∧
      p.takeFlag (.ofSetting setting) value = .ok q ∧
      body = name ++ value.elim [] ('=' :: ·) := by
  unfold Progress.takeLong at h
  simp only at h
  cases hflag : Flag.ofLong? (body.takeWhile (· != '=')) with
  | none =>
    rw [hflag] at h
    cases h
  | some flag =>
    rw [hflag] at h
    rcases Flag.ofLong?_eq_some hflag with htext | htext | ⟨setting, hlong, rfl⟩
    · exact absurd h (takeFlag_text p q (.inl htext) _)
    · exact absurd h (takeFlag_text p q (.inr htext) _)
    · rcases cut_at_equals body with ⟨hdrop, hbody⟩ | ⟨value, hdrop, hbody⟩
      · rw [hdrop] at h
        exact ⟨setting, _, none, hlong, h, hbody.trans (List.append_nil _).symm⟩
      · rw [hdrop] at h
        exact ⟨setting, _, some value, hlong, h, hbody⟩

/-- A short word that is taken names a declared option by its letter, and what comes behind the letter, but
for an equals sign, is its value. -/
theorem Progress.takeShort_cases {p q : Progress} {c : Char} {rest : Text} (h : p.takeShort c rest = .ok q) :
    ∃ setting value, (declared setting).short = some c ∧ setting ≠ .script ∧
      p.takeFlag (.ofSetting setting) value = .ok q ∧
      (value = none ∧ rest = [] ∨ ∃ text, value = some text ∧
        (rest = '=' :: text ∨ ∃ first more, first ≠ '=' ∧ rest = first :: more ∧ text = rest)) := by
  unfold Progress.takeShort at h
  simp only at h
  cases hflag : Flag.ofShort? c with
  | none =>
    rw [hflag] at h
    cases h
  | some flag =>
    rw [hflag] at h
    rcases Flag.ofShort?_eq_some hflag with rfl | rfl | ⟨setting, hshort, rfl⟩
    · exact absurd h (takeFlag_text p q (.inl rfl) _)
    · exact absurd h (takeFlag_text p q (.inr rfl) _)
    · cases setting with
      | historySize | rcfile | norc | script => cases hshort
      | command =>
        refine ⟨.command, _, hshort, by simp, h, ?_⟩
        split
        · exact .inl ⟨rfl, rfl⟩
        · exact .inr ⟨_, rfl, .inl rfl⟩
        · rename_i hnil hequals
          cases rest with
          | nil => exact absurd rfl hnil
          | cons first more =>
            have hfirst : first ≠ '=' := fun heq => hequals more (by rw [heq])
            exact .inr ⟨_, rfl, .inr ⟨first, more, hfirst, rfl, rfl⟩⟩

/-- **A word that is taken where an option may stand** is the separator, or spells an argument, or the
beginning of one. -/
theorem take_cases {p q : Progress} (hp : p.AtOption) {word : Text} (h : p.take word = .ok q) :
    Taken p word q := by
  by_cases hplain : Plain word
  · rw [Progress.take_plain hp.before hplain] at h
    split at h
    · rename_i waiting hpending
      exact absurd hpending (hp.complete waiting)
    · unfold Progress.takePositional at h
      cases hpositional : p.positional with
      | true =>
        rw [hpositional] at h
        cases h
      | false =>
        rw [hpositional] at h
        obtain ⟨p₀, hsettle, heq⟩ := bind_eq_ok.mp h
        obtain rfl := Except.ok.inj heq
        have hspells : Spells (declared .script) [word] word := .placed rfl rfl hplain
        exact .spelled hspells
          ⟨(Progress.settle_ok hsettle).2.1.trans hp.before, by simp⟩ (fun _ => ⟨hpositional, rfl⟩) fun _ => rfl
  · obtain ⟨c, rest, rfl⟩ : ∃ c rest, word = '-' :: c :: rest := by
      simpa [Plain] using hplain
    by_cases hdash : c = '-'
    · subst hdash
      cases rest with
      | nil =>
        obtain rfl := Except.ok.inj ((Progress.take_separator hp.before).symm.trans h)
        exact .separator rfl rfl
      | cons d rest =>
        rw [Progress.take_long hp.before] at h
        obtain ⟨setting, name, value, hlong, hflag, hbody⟩ := Progress.takeLong_cases h
        have hscript : setting ≠ .script := by
          rintro rfl
          cases hlong
        rw [hbody]
        refine .of_option hp hscript hflag ?_ ?_
        · rintro text rfl hkind
          exact .attached text hlong hkind
        · rintro rfl
          rw [Option.elim_none, List.append_nil]
          exact ⟨fun hkind => .switch hlong hkind, fun hkind text hplain => .following hlong hkind hplain⟩
    · rw [Progress.take_short hp.before hdash] at h
      obtain ⟨setting, value, hshort, hscript, hflag, hrest⟩ := Progress.takeShort_cases h
      have hkind : (declared setting).kind ≠ .switch := by
        cases setting with
        | command => exact nofun
        | historySize | rcfile | norc | script => cases hshort
      refine .of_option hp hscript hflag ?_ ?_
      · rintro text rfl -
        rcases hrest with ⟨hnone, -⟩ | ⟨other, hother, hrest⟩
        · cases hnone
        · obtain rfl := Option.some.inj hother
          rcases hrest with rfl | ⟨first, more, hfirst, rfl, rfl⟩
          · exact .letterAttached text hshort hkind
          · exact .letter hshort hkind hfirst
      · rintro rfl
        rcases hrest with ⟨-, rfl⟩ | ⟨other, hother, -⟩
        · exact ⟨fun hswitch => absurd hswitch hkind, fun _ text hplain => .letterFollowing hshort hkind hplain⟩
        · cases hother

/-- While an option waits for its value, nothing can be settled, -/
theorem Progress.settle_of_waiting {p : Progress} {setting : Setting} (h : p.pending = some (setting, none)) :
    p.settle = .error .invalidValue := by
  unfold settle
  rw [h]

/-- and only a plain word is taken, which is the value, or the separator, which leaves it waiting. -/
theorem take_of_waiting {p q : Progress} {setting : Setting} (hpending : p.pending = some (setting, none))
    (hbefore : p.trailing = false) {word : Text} (h : p.take word = .ok q) :
    Plain word ∧ q = { p with pending := some (setting, some word) } ∨
      word = "--".toList ∧ q = { p with trailing := true } := by
  have hsettle := Progress.settle_of_waiting hpending
  have hflag (flag : Flag) (value : Option Text) : p.takeFlag flag value ≠ .ok q := by
    unfold Progress.takeFlag
    rw [hsettle]
    cases flag <;> cases value <;> exact nofun
  by_cases hplain : Plain word
  · rw [Progress.take_plain hbefore hplain, hpending] at h
    exact .inl ⟨hplain, (Except.ok.inj h).symm⟩
  · obtain ⟨c, rest, rfl⟩ : ∃ c rest, word = '-' :: c :: rest := by
      simpa [Plain] using hplain
    by_cases hdash : c = '-'
    · subst hdash
      cases rest with
      | nil => exact .inr ⟨rfl, (Except.ok.inj ((Progress.take_separator hbefore).symm.trans h)).symm⟩
      | cons d rest =>
        rw [Progress.take_long hbefore] at h
        obtain ⟨_, _, value, -, hread, -⟩ := Progress.takeLong_cases h
        exact absurd hread (hflag _ value)
    · rw [Progress.take_short hbefore hdash] at h
      obtain ⟨_, value, -, -, hread, -⟩ := Progress.takeShort_cases h
      exact absurd hread (hflag _ value)

/-- An option whose value is cut off by a separator never gets it. -/
theorem outcome_of_cut_off {p q : Progress} {setting : Setting} (hpending : p.pending = some (setting, none))
    (htrailing : p.trailing = true) {words : List Text} (h : words.foldlM Progress.take p = .ok q) (d : Draft) :
    q.outcome ≠ .ok d := by
  cases words with
  | nil =>
    obtain rfl := Except.ok.inj h
    rw [Progress.outcome_of_waiting hpending]
    exact nofun
  | cons word rest =>
    rw [List.foldlM_cons] at h
    obtain ⟨p', htake, -⟩ := bind_eq_ok.mp h
    unfold Progress.take Progress.takePositional at htake
    rw [if_pos htrailing, Progress.settle_of_waiting hpending] at htake
    cases hpositional : p.positional <;> rw [hpositional] at htake <;> cases htake

/-- Behind a separator there is one word at most. -/
theorem words_of_trailing {p q : Progress} (htrailing : p.trailing = true) {words : List Text}
    (h : words.foldlM Progress.take p = .ok q) :
    words = [] ∨ p.positional = false ∧ ∃ value, words = [value] := by
  have hplaced {p q : Progress} {value : Text} (htrailing : p.trailing = true) (h : p.take value = .ok q) :
      p.positional = false ∧ q.trailing = true ∧ q.positional = true := by
    unfold Progress.take Progress.takePositional at h
    rw [if_pos htrailing] at h
    cases hpositional : p.positional with
    | true =>
      rw [hpositional] at h
      cases h
    | false =>
      rw [hpositional] at h
      obtain ⟨p₀, hsettle, heq⟩ := bind_eq_ok.mp h
      obtain rfl := Except.ok.inj heq
      exact ⟨rfl, (Progress.settle_ok hsettle).2.1.trans htrailing, rfl⟩
  cases words with
  | nil => exact .inl rfl
  | cons value rest =>
    rw [List.foldlM_cons] at h
    obtain ⟨p', htake, hrest⟩ := bind_eq_ok.mp h
    obtain ⟨hfree, htrailing', hseen⟩ := hplaced htrailing htake
    refine .inr ⟨hfree, ?_⟩
    cases rest with
    | nil => exact ⟨value, rfl⟩
    | cons next rest =>
      rw [List.foldlM_cons] at hrest
      obtain ⟨p'', htake', -⟩ := bind_eq_ok.mp hrest
      rw [(hplaced htrailing' htake').1] at hseen
      cases hseen

/-- **What is taken spells arguments**, from a place on where an option may stand. -/
theorem exists_reads {words : List Text} {p q : Progress} (hp : p.AtOption)
    (h : words.foldlM Progress.take p = .ok q) {d : Draft} (hdone : q.outcome = .ok d) :
    ∃ given, Reads declared words given ∧ (p.positional = true → ∀ a ∈ given, a.1 ≠ .script) := by
  -- an option and the word that it waits for are taken together, so the induction is on the length
  induction hlength : words.length using Nat.strongRecOn generalizing words p with
  | ind n ih =>
    subst hlength
    cases words with
    | nil => exact ⟨[], .nil, by simp⟩
    | cons word rest =>
      rw [List.foldlM_cons] at h
      obtain ⟨p', htake, hrest⟩ := bind_eq_ok.mp h
      cases take_cases hp htake with
      | separator hword hq =>
        subst hword hq
        rcases words_of_trailing rfl hrest with rfl | ⟨hfree, value, rfl⟩
        · exact ⟨[], .separator, by simp⟩
        · refine ⟨[(.script, value)], .separated value rfl rfl, fun hseen => ?_⟩
          exact absurd (hfree.symm.trans hseen) Bool.false_ne_true
      | @spelled setting value hspells hq hplaced hseen =>
        obtain ⟨given, hreads, hfresh⟩ := ih rest.length (by simp) hq hrest rfl
        refine ⟨(setting, value) :: given, .next hspells (fun hlong a ha => ?_) hreads, fun hbefore => ?_⟩
        · have hother := hfresh (hplaced (eq_script_of_long hlong)).2 a ha
          exact fun hnone => hother (eq_script_of_long hnone)
        · refine List.forall_mem_cons.mpr ⟨fun heq => ?_, hfresh (hseen hbefore)⟩
          exact absurd ((hplaced heq).1.symm.trans hbefore) Bool.false_ne_true
      | @waiting setting hspells hpending hbefore hscript hseen =>
        cases rest with
        | nil =>
          obtain rfl := Except.ok.inj hrest
          rw [Progress.outcome_of_waiting hpending] at hdone
          cases hdone
        | cons value rest =>
          rw [List.foldlM_cons] at hrest
          obtain ⟨p'', htake', hrest⟩ := bind_eq_ok.mp hrest
          rcases take_of_waiting hpending hbefore htake' with ⟨hplain, rfl⟩ | ⟨-, rfl⟩
          · have hshorter : rest.length < (word :: value :: rest).length :=
              Nat.lt_of_lt_of_le (Nat.lt_succ_self _) (Nat.le_succ _)
            obtain ⟨given, hreads, hfresh⟩ := ih rest.length hshorter
              (p := { p' with pending := some (setting, some value) }) ⟨hbefore, by simp⟩ hrest rfl
            refine ⟨(setting, value) :: given, .next (hspells value hplain) (fun hlong => ?_) hreads,
              fun hplaced => ?_⟩
            · exact absurd (eq_script_of_long hlong) hscript
            · exact List.forall_mem_cons.mpr ⟨hscript, hfresh (hseen.trans hplaced)⟩
          · exact absurd hdone (outcome_of_cut_off (p := { p' with trailing := true }) hpending rfl hrest d)

/-! ## What settings come to -/

theorem Draft.Holds.has {d : Draft} {a : Assignment} (h : d.Holds a) (hright : a.Right) :
    d.has a.1 = true := by
  obtain ⟨setting, value⟩ := a
  obtain ⟨found, hmeans⟩ := hright
  cases setting with
  | historySize =>
    have hcount : Text.count? value = some found := Text.count?_eq_some_iff.mpr hmeans
    exact (congrArg Option.isSome (Eq.trans h hcount)).trans rfl
  | command | rcfile | script => exact congrArg Option.isSome h
  | norc => exact h

theorem Draft.clash_eq_true_iff {d : Draft} :
    d.clash = true ↔ ∃ i j, d.has i = true ∧ d.has j = true ∧ j ∈ (declared i).excludes := by
  have hall (i : Setting) : i ∈ settings := by cases i <;> decide
  simp only [clash, List.any_eq_true, Bool.and_eq_true]
  constructor
  · rintro ⟨i, -, hi, j, hexcludes, hj⟩
    exact ⟨i, j, hi, hj, hexcludes⟩
  · rintro ⟨i, j, hi, hj, hexcludes⟩
    exact ⟨i, hall i, hi, j, hexcludes, hj⟩

theorem Draft.finish_of_size {d : Draft} {env : Environment} {size : Nat}
    (h : Cli.historySize d.historySize env = .ok size) :
    d.finish env = if d.clash then .error .argumentConflict else .ok (d.config size) := by
  change (Cli.historySize d.historySize env).bind _ = _
  rw [h]
  cases d.clash <;> rfl

theorem Draft.finish_of_error {d : Draft} {env : Environment} {e : UsageError}
    (h : Cli.historySize d.historySize env = .error e) : d.finish env = .error e := by
  change (Cli.historySize d.historySize env).bind _ = _
  rw [h]
  rfl

theorem Draft.finish_eq_ok_iff {d : Draft} {env : Environment} {c : Config} :
    d.finish env = .ok c ↔
      ∃ size, Cli.historySize d.historySize env = .ok size ∧ d.clash = false ∧ c = d.config size := by
  cases hsize : Cli.historySize d.historySize env with
  | error e => simp [finish_of_error hsize]
  | ok size => cases hclash : d.clash <;> simp [finish_of_size hsize, hclash, eq_comm]

/-- A history size that is not settled is one that the environment has. -/
theorem historySize_eq_error {size : Option Nat} {env : Environment} {e : UsageError}
    (h : historySize size env = .error e) :
    size = none ∧ ∃ value, env.historySize = some value ∧ (∀ n, ¬ Text.Denotes value n) ∧
      e = .valueValidation := by
  unfold historySize at h
  split at h
  · cases h
  · rename_i value hvalue
    unfold size? at h
    split at h
    · cases h
    · rename_i hcount
      exact ⟨rfl, value, hvalue, Text.count?_eq_none_iff.mp hcount, (Except.error.inj h).symm⟩
  · cases h

theorem Draft.finish_eq_error {d : Draft} {env : Environment} {e : UsageError} (h : d.finish env = .error e) :
    Cli.historySize d.historySize env = .error e ∨ d.clash = true ∧ e = .argumentConflict := by
  cases hsize : Cli.historySize d.historySize env with
  | error e' =>
    rw [finish_of_error hsize] at h
    exact .inl (congrArg Except.error (Except.error.inj h))
  | ok size =>
    rw [finish_of_size hsize] at h
    split at h
    · rename_i hclash
      exact .inr ⟨hclash, (Except.error.inj h).symm⟩
    · cases h

/-- A setting that was made fills its field with what its value means; -/
theorem Draft.Holds.means {d : Draft} {a : Assignment} (h : d.Holds a) (hright : a.Right) {env : Environment}
    {size : Nat} (hsize : Cli.historySize d.historySize env = .ok size) :
    (declared a.1).kind.Means a.2 ((d.config size).field a.1) := by
  obtain ⟨setting, value⟩ := a
  obtain ⟨found, hmeans⟩ := hright
  cases setting with
  | command => exact h
  | rcfile => exact ⟨hmeans.1, h⟩
  | script => exact ⟨hmeans.1, h⟩
  | norc => exact h
  | historySize =>
    have hcount : d.historySize = some found := Eq.trans h (Text.count?_eq_some_iff.mpr hmeans)
    rw [hcount] at hsize
    obtain rfl : found = size := Except.ok.inj hsize
    exact hmeans

/-- one that was not is filled from the environment, -/
theorem Draft.means_inherited {d : Draft} {i : Setting} (h : d.has i = false) {env : Environment} {size : Nat}
    (hsize : Cli.historySize d.historySize env = .ok size) {value : Text}
    (henv : (declared i).inherited env = some value) :
    (declared i).kind.Means value ((d.config size).field i) := by
  cases i with
  | command | rcfile | norc | script => cases henv
  | historySize =>
    have hnone : d.historySize = none := Option.isNone_iff_eq_none.mp (Option.isSome_eq_false_iff.mp h)
    unfold Cli.historySize at hsize
    rw [hnone, henv] at hsize
    change size? value = .ok size at hsize
    unfold size? at hsize
    split at hsize
    · rename_i n hcount
      obtain rfl := Except.ok.inj hsize
      exact Text.count?_eq_some_iff.mp hcount
    · cases hsize

/-- and else it holds its default. -/
theorem Draft.field_absent {d : Draft} {i : Setting} (h : d.has i = false) {env : Environment} {size : Nat}
    (hsize : Cli.historySize d.historySize env = .ok size) (henv : (declared i).inherited env = none) :
    (d.config size).field i = (declared i).absent := by
  have hnone {α : Type} {field : Option α} (h : field.isSome = false) : field = none :=
    Option.isNone_iff_eq_none.mp (Option.isSome_eq_false_iff.mp h)
  cases i with
  | command | rcfile | script => exact hnone h
  | norc => exact h
  | historySize =>
    unfold Cli.historySize at hsize
    rw [hnone h, henv] at hsize
    exact (Except.ok.inj hsize).symm

/-! ## The promises -/

/-- What a spelled command line comes to, if it is taken. -/
theorem parse_eq_ok_iff {words : List Text} {given : List Assignment} (h : Reads declared words given)
    {env : Environment} {c : Config} :
    parse env words = .ok c ↔ Draft.blank.Settable given ∧
      (given.foldl Draft.put .blank).finish env = .ok c := by
  rw [parse_of_reads h, bind_eq_ok]
  constructor
  · rintro ⟨d, hset, hfinish⟩
    obtain ⟨hsettable, rfl⟩ := Draft.setAll_eq_ok_iff.mp hset
    exact ⟨hsettable, hfinish⟩
  · rintro ⟨hsettable, hfinish⟩
    exact ⟨_, Draft.setAll_eq_ok_iff.mpr ⟨hsettable, rfl⟩, hfinish⟩

/-- A draft has the settings that were given. -/
theorem Draft.Settable.has_iff {given : List Assignment} (h : Draft.blank.Settable given) (i : Setting) :
    (given.foldl Draft.put .blank).has i = true ↔ i ∈ given.map Prod.fst := by
  constructor
  · intro hhas
    by_contra hnot
    rw [Draft.has_foldl_put hnot] at hhas
    cases i <;> cases hhas
  · intro hmem
    obtain ⟨a, ha, rfl⟩ := List.mem_map.mp hmem
    exact (Draft.holds_foldl_put h.once ha .blank).has (h.right a ha)

/-- **The parser is one of the declared arguments.** -/
theorem parse_documented : Documented declared Config.field parse where
  reads := by
    intro env words c h
    rw [parse_eq] at h
    obtain ⟨d, hread, -⟩ := bind_eq_ok.mp h
    obtain ⟨p, hall, hdone⟩ := bind_eq_ok.mp hread
    obtain ⟨given, hreads, -⟩ := exists_reads ⟨rfl, by simp [Progress.start]⟩ hall hdone
    exact ⟨given, hreads⟩
  supplied := by
    intro env words c given i value h hreads hsupplied
    obtain ⟨hsettable, hfinish⟩ := (parse_eq_ok_iff hreads).mp h
    obtain ⟨size, hsize, -, rfl⟩ := Draft.finish_eq_ok_iff.mp hfinish
    rcases hsupplied with hgiven | ⟨hnot, henv⟩
    · exact (Draft.holds_foldl_put hsettable.once hgiven .blank).means (hsettable.right _ hgiven) hsize
    · have hhas := Bool.eq_false_iff.mpr (mt (hsettable.has_iff i).mp hnot)
      exact Draft.means_inherited hhas hsize henv
  absent := by
    intro env words c given i h hreads hnot henv
    obtain ⟨hsettable, hfinish⟩ := (parse_eq_ok_iff hreads).mp h
    obtain ⟨size, hsize, -, rfl⟩ := Draft.finish_eq_ok_iff.mp hfinish
    exact Draft.field_absent (Bool.eq_false_iff.mpr (mt (hsettable.has_iff i).mp hnot)) hsize henv
  once := by
    intro env words c given h hreads
    exact ((parse_eq_ok_iff hreads).mp h).1.once
  exclusive := by
    intro env words c given i j h hreads hi hj hexcludes
    obtain ⟨hsettable, hfinish⟩ := (parse_eq_ok_iff hreads).mp h
    obtain ⟨size, -, hclash, -⟩ := Draft.finish_eq_ok_iff.mp hfinish
    have hboth := Draft.clash_eq_true_iff.mpr
      ⟨i, j, (hsettable.has_iff i).mpr hi, (hsettable.has_iff j).mpr hj, hexcludes⟩
    exact absurd (hclash.symm.trans hboth) Bool.false_ne_true
  fails := by
    intro env words e given h hreads
    rw [parse_of_reads hreads] at h
    cases hset : Draft.blank.setAll given with
    | error e' =>
      rw [hset] at h
      obtain rfl := Except.error.inj h
      rcases Draft.setAll_eq_error hset with ⟨rfl, hrepeated | ⟨a, -, hmade⟩⟩ | ⟨a, ha, hwrong, rfl⟩
      · exact .repeated hrepeated
      · cases hsetting : a.1 <;> rw [hsetting] at hmade <;> cases hmade
      · exact .meaningless (.inl ha) fun found hmeans => hwrong ⟨found, hmeans⟩
    | ok d =>
      rw [hset] at h
      obtain ⟨hsettable, rfl⟩ := Draft.setAll_eq_ok_iff.mp hset
      rcases Draft.finish_eq_error h with hsize | ⟨hclash, rfl⟩
      · obtain ⟨hnone, value, henv, hno, rfl⟩ := historySize_eq_error hsize
        have hnot : .historySize ∉ given.map Prod.fst := fun hmem => by
          have hhas := (hsettable.has_iff .historySize).mpr hmem
          change Option.isSome _ = true at hhas
          rw [hnone] at hhas
          cases hhas
        have hsupplied : Supplied declared env given .historySize value := .inr ⟨hnot, henv⟩
        exact .meaningless hsupplied hno
      · obtain ⟨i, j, hi, hj, hexcludes⟩ := Draft.clash_eq_true_iff.mp hclash
        exact .exclusive ((hsettable.has_iff i).mp hi) ((hsettable.has_iff j).mp hj) hexcludes

end LineShell.Cli
