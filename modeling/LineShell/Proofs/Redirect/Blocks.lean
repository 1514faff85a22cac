import LineShell.Proofs.Redirect.Plan
import Mathlib.Logic.ExistsUnique

/-!
# The words of a command in blocks

From left to right, the words of a command fall into **blocks**: a word by itself, which is no operator, or
an operator with the word after it, which may be an operator too. Whether a word is an operator or a file
depends on all that stands before it. An operator that no word follows is left **dangling**.

* `Decomposition`: words taken apart into blocks, and perhaps a dangling operator behind them.
* `Decomposition.exists_words_eq` and `Decomposition.words_injective`: words can be taken apart so, and in
  one way only.
* `plan_wordsAll` and `plan_dangling_wordsAll`: what planning makes of words, in terms of their blocks.
* `plan_iff_blocks`: these together, with what follows from them.
-/

namespace LineShell

/-- An operator with its file, or a word that is no operator. -/
inductive Block where
  | word (text : Text) (plain : ∀ direction : Direction, text ≠ direction.operator)
  | redirect (redirect : Redirect)

namespace Block

/-- The words of a block. -/
def words : Block → List Text
  | .word text _ => [text]
  | .redirect r => [r.direction.operator, r.target]

/-- The words of blocks, one after another. -/
def wordsAll (blocks : List Block) : List Text :=
  blocks.flatMap words

/-- The redirection that a block asks for. -/
def redirect? : Block → Option Redirect
  | .word _ _ => none
  | .redirect r => some r

/-- The word that a block leaves to the program. -/
def word? : Block → Option Text
  | .word text _ => some text
  | .redirect _ => none

/-- What blocks ask for: their redirections and their other words, both in order. -/
def toPlan (blocks : List Block) : Plan :=
  ⟨blocks.filterMap redirect?, blocks.filterMap word?⟩

@[simp] theorem wordsAll_nil : wordsAll [] = [] := rfl

@[simp] theorem wordsAll_word (text : Text) (plain : ∀ direction : Direction, text ≠ direction.operator)
    (rest : List Block) : wordsAll (.word text plain :: rest) = text :: wordsAll rest := rfl

@[simp] theorem wordsAll_redirect (r : Redirect) (rest : List Block) :
    wordsAll (.redirect r :: rest) = r.direction.operator :: r.target :: wordsAll rest := rfl

end Block

/-- A list of words taken apart. -/
structure Decomposition where
  blocks : List Block
  /-- The operator behind the blocks that no word follows. -/
  dangling : Option Direction

namespace Decomposition

/-- The words that were taken apart. -/
def words (d : Decomposition) : List Text :=
  Block.wordsAll d.blocks ++ d.dangling.toList.map Direction.operator

theorem words_none (blocks : List Block) : words ⟨blocks, none⟩ = Block.wordsAll blocks :=
  List.append_nil _

theorem words_some (blocks : List Block) (direction : Direction) :
    words ⟨blocks, some direction⟩ = Block.wordsAll blocks ++ [direction.operator] := rfl

end Decomposition

/-! ## Planning blocks -/

theorem Direction.ofWord?_eq_none_iff {word : Text} :
    ofWord? word = none ↔ ∀ direction : Direction, word ≠ direction.operator := by
  rw [Option.eq_none_iff_forall_ne_some]
  exact forall_congr' fun direction => not_congr ofWord?_eq_some_iff

theorem Direction.operator_injective {direction other : Direction}
    (h : direction.operator = other.operator) : direction = other := by
  have hword := ofWord?_operator direction
  rw [h, ofWord?_operator] at hword
  exact (Option.some.inj hword).symm

/-- What a block is can be told from its words, whatever follows them. -/
theorem Block.eq_of_words_append {block other : Block} {rest rest' : List Text}
    (h : block.words ++ rest = other.words ++ rest') : block = other ∧ rest = rest' := by
  cases block with
  | word text plain =>
    cases other with
    | word text' plain' =>
      obtain ⟨rfl, hrest⟩ := List.cons.inj h
      exact ⟨rfl, hrest⟩
    | redirect r' => exact absurd (List.cons.inj h).1 (plain r'.direction)
  | redirect r =>
    cases other with
    | word text' plain' => exact absurd (List.cons.inj h).1.symm (plain' r.direction)
    | redirect r' =>
      obtain ⟨direction, target⟩ := r
      obtain ⟨direction', target'⟩ := r'
      obtain ⟨hoperator, htail⟩ := List.cons.inj h
      obtain ⟨rfl, hrest⟩ := List.cons.inj htail
      obtain rfl := Direction.operator_injective hoperator
      exact ⟨rfl, hrest⟩

/-- **Blocks are planned one by one.** -/
theorem plan_wordsAll (blocks : List Block) : plan (Block.wordsAll blocks) = .ok (Block.toPlan blocks) := by
  induction blocks with
  | nil => rfl
  | cons block rest ih =>
    cases block with
    | word text plain =>
      rw [Block.wordsAll_word, plan_word (Direction.ofWord?_eq_none_iff.mpr plain), ih]
      rfl
    | redirect r =>
      rw [Block.wordsAll_redirect, plan_redirect, ih]
      rfl

/-- Words with a dangling operator cannot be planned, and the error names that operator. -/
theorem plan_dangling_wordsAll (blocks : List Block) (direction : Direction) :
    plan (Block.wordsAll blocks ++ [direction.operator]) = .error (.missingTarget direction) :=
  plan_eq_error_iff.mpr ⟨Block.wordsAll blocks, direction, rfl, ⟨_, plan_wordsAll blocks⟩, rfl⟩

namespace Decomposition

/-! ## Taking words apart -/

/-- Words can be taken apart. The induction is on the cases of planning: each takes one block off. -/
theorem exists_words_eq (words : List Text) : ∃ d : Decomposition, d.words = words := by
  induction words using plan.induct with
  | case1 => exact ⟨⟨[], none⟩, rfl⟩
  | case2 word rest hword ih =>
    obtain ⟨⟨blocks, dangling⟩, rfl⟩ := ih
    exact ⟨⟨.word word (Direction.ofWord?_eq_none_iff.mp hword) :: blocks, dangling⟩, rfl⟩
  | case3 word direction hword =>
    obtain rfl := Direction.ofWord?_eq_some_iff.mp hword
    exact ⟨⟨[], some direction⟩, rfl⟩
  | case4 word direction target rest hword ih =>
    obtain rfl := Direction.ofWord?_eq_some_iff.mp hword
    obtain ⟨⟨blocks, dangling⟩, rfl⟩ := ih
    exact ⟨⟨.redirect ⟨direction, target⟩ :: blocks, dangling⟩, rfl⟩

theorem words_cons (block : Block) (blocks : List Block) (dangling : Option Direction) :
    words ⟨block :: blocks, dangling⟩ = block.words ++ words ⟨blocks, dangling⟩ := by
  rw [words, Block.wordsAll, List.flatMap_cons, List.append_assoc]
  rfl

/-- Words that begin with a block are more than a dangling operator. -/
theorem words_cons_ne (block : Block) (blocks : List Block) (dangling other : Option Direction) :
    words ⟨block :: blocks, dangling⟩ ≠ words ⟨[], other⟩ := by
  intro h
  rw [words_cons] at h
  cases block with
  | word text plain =>
    cases other with
    | none => exact absurd h (List.cons_ne_nil _ _)
    | some direction => exact plain direction (List.cons.inj h).1
  | redirect r =>
    have hlength := congrArg List.length h
    cases other <;> simp [words, Block.words] at hlength

/-- **There is no other way to take words apart.** The induction is on the blocks of one way; the first of
them is also the first of the other. -/
theorem words_injective {d e : Decomposition} (h : d.words = e.words) : d = e := by
  obtain ⟨blocks, dangling⟩ := d
  obtain ⟨others, left⟩ := e
  induction blocks generalizing others with
  | nil =>
    cases others with
    | nil =>
      have hlast : dangling.toList.map Direction.operator = left.toList.map Direction.operator := h
      cases dangling with
      | none =>
        cases left with
        | none => rfl
        | some direction => exact absurd hlast (by simp)
      | some direction =>
        cases left with
        | none => exact absurd hlast (by simp)
        | some other => rw [Direction.operator_injective (List.singleton_inj.mp hlast)]
    | cons other others => exact absurd h.symm (words_cons_ne other others left dangling)
  | cons block rest ih =>
    cases others with
    | nil => exact absurd h (words_cons_ne block rest dangling left)
    | cons other others =>
      rw [words_cons, words_cons] at h
      obtain ⟨rfl, hrest⟩ := Block.eq_of_words_append h
      obtain ⟨rfl, rfl⟩ := Decomposition.mk.inj (ih others hrest)
      rfl

end Decomposition

/-! ## Planning and blocks -/

/-- Words that are no operators are all left to the program. -/
theorem plan_of_plain {words : List Text}
    (h : ∀ word ∈ words, ∀ direction, word ≠ Direction.operator direction) :
    plan words = .ok ⟨[], words⟩ := by
  induction words with
  | nil => rfl
  | cons word rest ih =>
    obtain ⟨hword, hrest⟩ := List.forall_mem_cons.mp h
    rw [plan_word (Direction.ofWord?_eq_none_iff.mpr hword), ih hrest]
    rfl

/-- Words that blocks leave to the program are no operators. -/
theorem Block.plain_of_mem_toPlan {blocks : List Block} {word : Text} (h : word ∈ (toPlan blocks).words) :
    ∀ direction, word ≠ Direction.operator direction := by
  obtain ⟨block, -, hblock⟩ := List.mem_filterMap.mp h
  cases block with
  | word text plain =>
    obtain rfl := Option.some.inj hblock
    exact plain
  | redirect r => exact absurd hblock (by simp [word?])

/-- A word by itself is one word, and a redirection is two. -/
theorem Block.length_wordsAll (blocks : List Block) :
    (wordsAll blocks).length = (toPlan blocks).words.length + 2 * (toPlan blocks).redirects.length := by
  induction blocks with
  | nil => rfl
  | cons block rest ih =>
    cases block with
    | word text plain =>
      rw [wordsAll_word, List.length_cons, ih]
      change _ = (toPlan rest).words.length + 1 + 2 * (toPlan rest).redirects.length
      omega
    | redirect r =>
      rw [wordsAll_redirect, List.length_cons, List.length_cons, ih]
      change _ = (toPlan rest).words.length + 2 * ((toPlan rest).redirects.length + 1)
      omega

/-- Words can be planned exactly if they are blocks. -/
theorem plan_eq_ok_iff {words : List Text} {p : Plan} :
    plan words = .ok p ↔ ∃ blocks, Block.wordsAll blocks = words ∧ Block.toPlan blocks = p := by
  constructor
  · intro h
    obtain ⟨⟨blocks, dangling⟩, rfl⟩ := Decomposition.exists_words_eq words
    cases dangling with
    | none =>
      rw [Decomposition.words_none, plan_wordsAll] at h
      exact ⟨blocks, (Decomposition.words_none blocks).symm, Except.ok.inj h⟩
    | some direction =>
      rw [Decomposition.words_some, plan_dangling_wordsAll] at h
      exact absurd h (by simp)
  · rintro ⟨blocks, rfl, rfl⟩
    exact plan_wordsAll blocks

/-- Words cannot be planned exactly if an operator dangles behind their blocks. -/
theorem plan_eq_error_iff_dangling {words : List Text} {e : RedirectError} :
    plan words = .error e ↔ ∃ blocks direction,
      Block.wordsAll blocks ++ [Direction.operator direction] = words ∧ e = .missingTarget direction := by
  rw [plan_eq_error_iff]
  constructor
  · rintro ⟨front, direction, rfl, ⟨p, hfront⟩, rfl⟩
    obtain ⟨blocks, rfl, -⟩ := plan_eq_ok_iff.mp hfront
    exact ⟨blocks, direction, rfl, rfl⟩
  · rintro ⟨blocks, direction, rfl, rfl⟩
    exact ⟨_, direction, rfl, ⟨_, plan_wordsAll blocks⟩, rfl⟩

/-- **Planning takes words apart into blocks**, which can be done in exactly one way, with or without a
dangling operator behind the blocks.

Where none dangles, the plan has the redirections and the other words of the blocks, both in order;
otherwise the error names the operator that dangles. So the other words are no operators, each redirection
accounts for two words, and the other words can be planned once more without any change. Words behind such
that can be planned are planned apart from them. -/
theorem plan_iff_blocks :
    (∀ words : List Text, ∃! d : Decomposition, d.words = words) ∧
    (∀ words p, plan words = .ok p ↔
      ∃ blocks, Block.wordsAll blocks = words ∧ Block.toPlan blocks = p) ∧
    (∀ words e, plan words = .error e ↔ ∃ blocks direction,
      Block.wordsAll blocks ++ [Direction.operator direction] = words ∧ e = .missingTarget direction) ∧
    (∀ words p, plan words = .ok p →
      (∀ word ∈ p.words, ∀ direction, word ≠ Direction.operator direction) ∧
      words.length = p.words.length + 2 * p.redirects.length ∧
      plan p.words = .ok ⟨[], p.words⟩) ∧
    ∀ front p, plan front = .ok p → ∀ back,
      (∀ q, plan back = .ok q →
        plan (front ++ back) = .ok ⟨p.redirects ++ q.redirects, p.words ++ q.words⟩) ∧
      ∀ e, plan back = .error e → plan (front ++ back) = .error e := by
  refine ⟨fun words => ?_, fun words p => plan_eq_ok_iff, fun words e => plan_eq_error_iff_dangling, ?_, ?_⟩
  · obtain ⟨d, hd⟩ := Decomposition.exists_words_eq words
    exact ⟨d, hd, fun e he => Decomposition.words_injective (he.trans hd.symm)⟩
  · intro words p h
    obtain ⟨blocks, rfl, rfl⟩ := plan_eq_ok_iff.mp h
    have hplain : ∀ word ∈ (Block.toPlan blocks).words, ∀ direction, word ≠ Direction.operator direction :=
      fun word hword => Block.plain_of_mem_toPlan hword
    exact ⟨hplain, Block.length_wordsAll blocks, plan_of_plain hplain⟩
  · intro front p hfront back
    constructor
    · intro q hback
      rw [plan_append hfront, hback]
      rfl
    · intro e hback
      rw [plan_append hfront, hback]
      rfl

/-- Two operators in a row, of which the second is the file of the first, and an odd run of operators that
takes the last word for its file; behind them an operator that dangles. -/
theorem plan_iff_blocks_operators_in_a_row :
    let words : List Text := [['>'], ['>'], ['f'], ['<'], ['>', '>'], ['>'], ['a']]
    let planned : Plan := ⟨[⟨.output, ['>']⟩, ⟨.input, ['>', '>']⟩, ⟨.output, ['a']⟩], [['f']]⟩
    plan words = .ok planned ∧ planned.words.length + 2 * planned.redirects.length = 7 ∧
      plan [['f']] = .ok ⟨[], [['f']]⟩ ∧ plan (words ++ [['<']]) = .error (.missingTarget .input) := by
  intro words planned
  obtain ⟨-, -, -, hplanned, happend⟩ := plan_iff_blocks
  have hwords : plan words = .ok planned := rfl
  obtain ⟨-, hlength, hagain⟩ := hplanned words planned hwords
  exact ⟨hwords, hlength.symm, hagain, (happend words planned hwords [['<']]).2 _ rfl⟩

end LineShell
