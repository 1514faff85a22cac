import LineShell.Proofs.Syntax.WellFormed
import LineShell.Redirect.Plan

/-!
# Laws of planning

* `plan_append`: what follows words that can be planned is planned by itself.
* `plan_eq_error_iff`: planning fails exactly where an operator stands last behind words that can be
  planned, and that operator is the one it names.
* `plan_take_of_ok` and `plan_take_eq_error_iff`: the beginning of words that can be planned has the
  beginning of their plan, unless the cut parts an operator from its file.
* `Command.limit_fatal_iff`: so it is with the words that a command keeps of its text. The limit on them
  can make an error of a command that had none.
-/

namespace LineShell

/-! ## Operators -/

namespace Direction

@[simp] theorem ofWord?_operator (direction : Direction) :
    ofWord? direction.operator = some direction := by
  cases direction <;> decide

theorem ofWord?_eq_some_iff {word : Text} {direction : Direction} :
    ofWord? word = some direction ↔ word = direction.operator := by
  constructor
  · intro h
    unfold ofWord? at h
    split at h
    · rename_i hword
      rw [hword, ← Option.some.inj h, operator]
    · split at h
      · rename_i hword
        rw [hword, ← Option.some.inj h, operator]
      · split at h
        · rename_i hword
          rw [hword, ← Option.some.inj h, operator]
        · exact absurd h (by simp)
  · rintro rfl
    exact ofWord?_operator direction

end Direction

/-! ## Planning piece by piece -/

theorem plan_word {word : Text} (h : Direction.ofWord? word = none) (rest : List Text) :
    plan (word :: rest) = (plan rest).map fun p => { p with words := word :: p.words } := by
  simp only [plan, h]

theorem plan_redirect (direction : Direction) (target : Text) (rest : List Text) :
    plan (direction.operator :: target :: rest) =
      (plan rest).map fun p => { p with redirects := ⟨direction, target⟩ :: p.redirects } := by
  cases direction <;> rfl

theorem plan_dangling (direction : Direction) :
    plan [direction.operator] = .error (.missingTarget direction) := by
  cases direction <;> rfl

section

variable {f : Plan → Plan} {planned : Except RedirectError Plan}

theorem map_eq_ok_iff {p : Plan} : planned.map f = .ok p ↔ ∃ q, planned = .ok q ∧ f q = p := by
  cases planned <;> simp [Except.map]

theorem map_eq_error_iff {e : RedirectError} : planned.map f = .error e ↔ planned = .error e := by
  cases planned <;> simp [Except.map]

end

/-- What one list of words asks for and then another. -/
def Plan.append (front back : Plan) : Plan :=
  ⟨front.redirects ++ back.redirects, front.words ++ back.words⟩

/-- **What follows words that can be planned is planned by itself.** -/
theorem plan_append {front : List Text} {p : Plan} (h : plan front = .ok p) (back : List Text) :
    plan (front ++ back) = (plan back).map p.append := by
  induction front using plan.induct generalizing p with
  | case1 =>
    obtain rfl := Except.ok.inj h
    rw [List.nil_append]
    cases plan back <;> rfl
  | case2 word rest hword ih =>
    rw [plan_word hword, map_eq_ok_iff] at h
    obtain ⟨q, hrest, rfl⟩ := h
    rw [List.cons_append, plan_word hword, ih hrest]
    cases plan back <;> rfl
  | case3 word direction hword =>
    obtain rfl := Direction.ofWord?_eq_some_iff.mp hword
    rw [plan_dangling] at h
    exact absurd h (by simp)
  | case4 word direction target rest hword ih =>
    obtain rfl := Direction.ofWord?_eq_some_iff.mp hword
    rw [plan_redirect, map_eq_ok_iff] at h
    obtain ⟨q, hrest, rfl⟩ := h
    rw [List.cons_append, List.cons_append, plan_redirect, ih hrest]
    cases plan back <;> rfl

/-- **Planning fails exactly at an operator that stands last.** -/
theorem plan_eq_error_iff {words : List Text} {e : RedirectError} :
    plan words = .error e ↔ ∃ front direction,
      words = front ++ [direction.operator] ∧ (∃ p, plan front = .ok p) ∧
        e = .missingTarget direction := by
  constructor
  · intro h
    induction words using plan.induct with
    | case1 => exact absurd h (by simp [plan])
    | case2 word rest hword ih =>
      rw [plan_word hword, map_eq_error_iff] at h
      obtain ⟨front, direction, rfl, ⟨p, hfront⟩, rfl⟩ := ih h
      refine ⟨word :: front, direction, rfl, ⟨{ p with words := word :: p.words }, ?_⟩, rfl⟩
      rw [plan_word hword, hfront]
      rfl
    | case3 word direction hword =>
      obtain rfl := Direction.ofWord?_eq_some_iff.mp hword
      rw [plan_dangling] at h
      exact ⟨[], direction, rfl, ⟨⟨[], []⟩, rfl⟩, (Except.error.inj h).symm⟩
    | case4 word direction target rest hword ih =>
      obtain rfl := Direction.ofWord?_eq_some_iff.mp hword
      rw [plan_redirect, map_eq_error_iff] at h
      obtain ⟨front, dangling, rfl, ⟨p, hfront⟩, rfl⟩ := ih h
      refine ⟨direction.operator :: target :: front, dangling, rfl,
        ⟨{ p with redirects := ⟨direction, target⟩ :: p.redirects }, ?_⟩, rfl⟩
      rw [plan_redirect, hfront]
      rfl
  · rintro ⟨front, direction, rfl, ⟨p, hfront⟩, rfl⟩
    rw [plan_append hfront, plan_dangling]
    rfl

/-! ## Planning the beginning of words -/

section

variable {words : List Text} {p : Plan}

/-- Where the beginning of words can be planned, its plan is the beginning of the whole. -/
theorem plan_take_of_ok (h : plan words = .ok p) {n : Nat} {q : Plan}
    (hfront : plan (words.take n) = .ok q) :
    q.redirects <+: p.redirects ∧ q.words <+: p.words := by
  rw [← List.take_append_drop n words, plan_append hfront, map_eq_ok_iff] at h
  obtain ⟨back, -, rfl⟩ := h
  exact ⟨List.prefix_append _ _, List.prefix_append _ _⟩

/-- **The beginning of words cannot be planned exactly if it ends in an operator** that is no file of
another. -/
theorem plan_take_eq_error_iff (h : plan words = .ok p) (n : Nat) (e : RedirectError) :
    plan (words.take (n + 1)) = .error e ↔ ∃ direction,
      words[n]? = some direction.operator ∧ (∃ q, plan (words.take n) = .ok q) ∧
        e = .missingTarget direction := by
  rw [plan_eq_error_iff]
  constructor
  · rintro ⟨front, direction, htake, hfront, rfl⟩
    have hlong : n < words.length := by
      refine Nat.lt_of_not_le fun hshort => ?_
      -- nothing would be cut off, and the whole would end in an operator
      rw [List.take_of_length_le (by omega)] at htake
      have herror := plan_eq_error_iff.mpr ⟨front, direction, htake, hfront, rfl⟩
      rw [h] at herror
      exact absurd herror (by simp)
    rw [List.take_succ_eq_append_getElem hlong] at htake
    obtain ⟨htake, hoperator⟩ := List.append_inj' htake rfl
    refine ⟨direction, ?_, by rwa [htake], rfl⟩
    rw [List.getElem?_eq_getElem hlong, List.singleton_inj.mp hoperator]
  · rintro ⟨direction, hoperator, hfront, rfl⟩
    obtain ⟨hlong, hoperator⟩ := List.getElem?_eq_some_iff.mp hoperator
    refine ⟨words.take n, direction, ?_, hfront, rfl⟩
    rw [List.take_succ_eq_append_getElem hlong, hoperator]

end

/-! ## Words beyond the limit -/

namespace Command

/-- **When the limit on words is fatal.** Let all words of a text, as many as there are, be words that can
be planned. The command that is read from the text cannot be planned exactly if the last word that it
keeps is an operator whose file is the first word that is dropped; the error then names that operator.
Otherwise its redirections and its other words are the beginning of those that the text asks for. -/
theorem limit_fatal_iff {text : Text} {c : Command} {p : Plan} (hc : parse? text = some c)
    (hp : plan (Text.words text) = .ok p) :
    (∀ e, plan c.words = .error e ↔ ∃ direction,
      (Text.words text)[63]? = some (Direction.operator direction) ∧
        (∃ q, plan ((Text.words text).take 63) = .ok q) ∧ e = .missingTarget direction) ∧
    ∀ q, plan c.words = .ok q → q.redirects <+: p.redirects ∧ q.words <+: p.words := by
  have hwords : c.words = (Text.words text).take (63 + 1) := (parse?_eq_some_iff.mp hc).1
  rw [hwords]
  exact ⟨plan_take_eq_error_iff hp 63, fun q hq => plan_take_of_ok hp hq⟩

/-- The last word kept looks like an operator, but it is the file of the operator before it. -/
theorem limit_fatal_iff_operator_named_file :
    let text := "true ".toList ++ (List.replicate 61 "a ".toList).flatten ++ "> < b".toList
    ∃ c p, parse? text = some c ∧ plan (Text.words text) = .ok p ∧
      (Text.words text)[63]? = some Direction.input.operator ∧ ∀ e, plan c.words ≠ .error e := by
  intro text
  have hc : parse? text = some ⟨(Text.words text).take 64⟩ := by decide +kernel
  have hp : plan (Text.words text) =
      .ok ⟨[⟨.output, ['<']⟩], "true".toList :: List.replicate 61 ['a'] ++ [['b']]⟩ := by
    rfl
  refine ⟨_, _, hc, hp, by decide +kernel, fun e he => ?_⟩
  obtain ⟨direction, -, ⟨q, hq⟩, -⟩ := ((limit_fatal_iff hc hp).1 e).mp he
  have hdangling : plan ((Text.words text).take 63) = .error (.missingTarget .output) := by
    rfl
  rw [hdangling] at hq
  exact absurd hq (by simp)

/-- Every operator has its file, but the file of the only one is the word after the last that is kept. -/
theorem limit_parts_operator_from_file :
    let text := "true ".toList ++ (List.replicate 62 "a ".toList).flatten ++ "< f".toList
    plan (Text.words text) = .ok ⟨[⟨.input, ['f']⟩], "true".toList :: List.replicate 62 ['a']⟩ ∧
      ∃ c, parse? text = some c ∧ plan c.words = .error (.missingTarget .input) := by
  intro text
  exact ⟨rfl, ⟨(Text.words text).take 64⟩, by decide +kernel, rfl⟩

end Command

end LineShell
