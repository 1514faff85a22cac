import LineShell.Cli.Parse
import LineShell.Proofs.Text.Numeral

/-!
# What a parser promises of declared arguments

The parser of a run is derived from the declarations and not written down here. What is relied on is what
it promises of any declared arguments (`Documented`), in terms of how command lines spell arguments.

* `Spells`: the ways to spell one argument with its value; `Reads`: what a command line gives, in order.
* `Supplied`: the value that an argument is to have, given or else inherited from the environment.
* `Fault`: the reasons for which a spelled command line may be refused.
* `Documented`: a parser refuses for such a reason only; what it takes is spelled, and it fills the fields
  as the arguments say.
* `Documented.parse_eq`: so a command line without a fault is taken, and its fields hold what the arguments
  say; `Documented.parse_besides`: an argument beside one that excludes it is a conflict.
-/

namespace LineShell

/-! ## Values -/

/-- What the field of an argument holds when the argument has a value. A path is not empty, and a count is
a decimal numeral that fits. -/
def ValueKind.Means : (kind : ValueKind) → Text → kind.Result → Prop
  | .text, value, found => found = some value
  | .path, value, found => value ≠ [] ∧ found = some value
  | .count, value, found => Text.Denotes value found
  | .switch, _, found => found = true

/-- How a value is refused that means nothing. -/
def ValueKind.fault : ValueKind → UsageError
  | .count => .valueValidation
  | _ => .invalidValue

/-- A value means one thing at most. -/
theorem ValueKind.Means.unique {kind : ValueKind} {value : Text} {found found' : kind.Result}
    (h : kind.Means value found) (h' : kind.Means value found') : found = found' := by
  cases kind with
  | text => exact Eq.trans h (Eq.symm h')
  | path => exact Eq.trans h.2 (Eq.symm h'.2)
  | count =>
    have hcount := Text.count?_eq_some_iff.mpr h
    rw [Text.count?_eq_some_iff.mpr h'] at hcount
    exact (Option.some.inj hcount).symm
  | switch => exact Eq.trans h (Eq.symm h')

namespace Cli

variable {ι : Type}

/-! ## Command lines -/

/-- A word that is not taken for an option where one may stand: it has no dash in front, or is nothing
else than a dash. -/
def Plain (word : Text) : Prop :=
  ∀ c rest, word ≠ '-' :: c :: rest

/-- The spellings of an argument with its value. -/
inductive Spells (a : Argument ι) : List Text → Text → Prop where
  | attached {name : Text} (value : Text) (hlong : a.long = some name) (hkind : a.kind ≠ .switch) :
      Spells a ["--".toList ++ name ++ '=' :: value] value
  | following {name value : Text} (hlong : a.long = some name) (hkind : a.kind ≠ .switch)
      (hplain : Plain value) : Spells a ["--".toList ++ name, value] value
  | letter {c first : Char} {rest : Text} (hshort : a.short = some c) (hkind : a.kind ≠ .switch)
      (hfirst : first ≠ '=') : Spells a ['-' :: c :: first :: rest] (first :: rest)
  | letterAttached {c : Char} (value : Text) (hshort : a.short = some c) (hkind : a.kind ≠ .switch) :
      Spells a ['-' :: c :: '=' :: value] value
  | letterFollowing {c : Char} {value : Text} (hshort : a.short = some c) (hkind : a.kind ≠ .switch)
      (hplain : Plain value) : Spells a [['-', c], value] value
  | switch {name : Text} (hlong : a.long = some name) (hkind : a.kind = .switch) :
      Spells a ["--".toList ++ name] []
  | placed {value : Text} (hlong : a.long = none) (hshort : a.short = none) (hplain : Plain value) :
      Spells a [value] value

/-- What a command line gives, in order: spelled arguments one after another, of which one may be told by
its place, also behind a separator. -/
inductive Reads (declared : ι → Argument ι) : List Text → List (ι × Text) → Prop where
  | nil : Reads declared [] []
  | next {i : ι} {spelling words : List Text} {value : Text} {given : List (ι × Text)}
      (hspells : Spells (declared i) spelling value)
      (honce : (declared i).long = none → ∀ g ∈ given, (declared g.1).long ≠ none)
      (hrest : Reads declared words given) : Reads declared (spelling ++ words) ((i, value) :: given)
  | separator : Reads declared ["--".toList] []
  | separated {i : ι} (value : Text) (hlong : (declared i).long = none)
      (hshort : (declared i).short = none) : Reads declared ["--".toList, value] [(i, value)]

/-- The value that an argument is to have: the one given, or else the one that the environment has for
it. -/
def Supplied (declared : ι → Argument ι) (env : Environment) (given : List (ι × Text)) (i : ι)
    (value : Text) : Prop :=
  (i, value) ∈ given ∨ i ∉ given.map Prod.fst ∧ (declared i).inherited env = some value

/-- The faults for which a command line that spells arguments is refused. -/
inductive Fault (declared : ι → Argument ι) (env : Environment) (given : List (ι × Text)) :
    UsageError → Prop where
  /-- An argument stands twice. -/
  | repeated (h : ¬ (given.map Prod.fst).Nodup) : Fault declared env given .argumentConflict
  /-- An argument stands beside one that it excludes. -/
  | exclusive {i j : ι} (hi : i ∈ given.map Prod.fst) (hj : j ∈ given.map Prod.fst)
      (h : j ∈ (declared i).excludes) : Fault declared env given .argumentConflict
  /-- A value means nothing. -/
  | meaningless {i : ι} {value : Text} (h : Supplied declared env given i value)
      (hno : ∀ found, ¬ (declared i).kind.Means value found) :
      Fault declared env given (declared i).kind.fault

/-- **What the derived parser promises** of declared arguments and the fields that they fill
(`try_parse_from`). -/
structure Documented {C : Type} (declared : ι → Argument ι)
    (field : C → (i : ι) → (declared i).kind.Result)
    (parse : Environment → List Text → Except UsageError C) : Prop where
  /-- Words that are no spelling of declared arguments are refused. -/
  reads : ∀ {env words c}, parse env words = .ok c → ∃ given, Reads declared words given
  /-- An argument that is given has the value given, and one that is not has that of the environment. -/
  supplied : ∀ {env words c given i value}, parse env words = .ok c → Reads declared words given →
    Supplied declared env given i value → (declared i).kind.Means value (field c i)
  /-- Without either it has its default. -/
  absent : ∀ {env words c given i}, parse env words = .ok c → Reads declared words given →
    i ∉ given.map Prod.fst → (declared i).inherited env = none → field c i = (declared i).absent
  /-- An argument is given once. -/
  once : ∀ {env words c given}, parse env words = .ok c → Reads declared words given →
    (given.map Prod.fst).Nodup
  /-- An argument is not given beside one that it excludes. -/
  exclusive : ∀ {env words c given i j}, parse env words = .ok c → Reads declared words given →
    i ∈ given.map Prod.fst → j ∈ given.map Prod.fst → j ∉ (declared i).excludes
  /-- A spelled command line is refused only where there is a fault, and as that fault is. -/
  fails : ∀ {env words e given}, parse env words = .error e → Reads declared words given →
    Fault declared env given e

namespace Documented

variable {C : Type} {declared : ι → Argument ι} {field : C → (i : ι) → (declared i).kind.Result}
  {parse : Environment → List Text → Except UsageError C} {env : Environment} {words : List Text}
  {given : List (ι × Text)}

/-- **A command line without a fault is taken.** -/
theorem parse_ok (h : Documented declared field parse) (hreads : Reads declared words given)
    (hfault : ∀ e, ¬ Fault declared env given e) : ∃ c, parse env words = .ok c := by
  cases hparse : parse env words with
  | ok c => exact ⟨c, rfl⟩
  | error e => exact absurd (h.fails hparse hreads) (hfault e)

/-- The field of an argument with a value is what the value means. -/
theorem field_eq (h : Documented declared field parse) {c : C} (hparse : parse env words = .ok c)
    (hreads : Reads declared words given) {i : ι} {value : Text}
    (hsupplied : Supplied declared env given i value) {found : (declared i).kind.Result}
    (hmeans : (declared i).kind.Means value found) : field c i = found :=
  (h.supplied hparse hreads hsupplied).unique hmeans

/-- **The fields are as the arguments say**: a command line without a fault gives the one configuration
whose fields hold what is supplied, and the default where nothing is. -/
theorem parse_eq (h : Documented declared field parse) (hreads : Reads declared words given)
    (hfields : ∀ c c', (∀ i, field c i = field c' i) → c = c')
    (hfault : ∀ e, ¬ Fault declared env given e) {c : C}
    (hsupplied : ∀ i value, Supplied declared env given i value →
      (declared i).kind.Means value (field c i))
    (habsent : ∀ i, i ∉ given.map Prod.fst → (declared i).inherited env = none →
      field c i = (declared i).absent) : parse env words = .ok c := by
  obtain ⟨c', hparse⟩ := h.parse_ok hreads hfault
  rw [hparse]
  refine congrArg Except.ok (hfields c' c fun i => ?_)
  by_cases hmem : i ∈ given.map Prod.fst
  · obtain ⟨⟨_, value⟩, hgiven, rfl⟩ := List.mem_map.mp hmem
    exact h.field_eq hparse hreads (.inl hgiven) (hsupplied _ _ (.inl hgiven))
  · cases henv : (declared i).inherited env with
    | some value => exact h.field_eq hparse hreads (.inr ⟨hmem, henv⟩) (hsupplied _ _ (.inr ⟨hmem, henv⟩))
    | none => rw [h.absent hparse hreads hmem henv, habsent i hmem henv]

/-- An argument without a variable whose field differs from the default was given. -/
theorem exists_given (h : Documented declared field parse) {c : C} (hparse : parse env words = .ok c)
    (hreads : Reads declared words given) {i : ι} (henv : (declared i).inherited env = none)
    (hfield : field c i ≠ (declared i).absent) : ∃ value, (i, value) ∈ given := by
  by_cases hmem : i ∈ given.map Prod.fst
  · obtain ⟨⟨_, value⟩, hgiven, rfl⟩ := List.mem_map.mp hmem
    exact ⟨value, hgiven⟩
  · exact absurd (h.absent hparse hreads hmem henv) hfield

/-- **One argument more, which another one excludes or which excludes it, is a conflict** and no other
fault, wherever it stands. -/
theorem parse_besides (h : Documented declared field parse) {c : C} (hparse : parse env words = .ok c)
    (hreads : Reads declared words given) {i j : ι} {value : Text} (hi : i ∈ given.map Prod.fst)
    (hexcludes : j ∈ (declared i).excludes ∨ i ∈ (declared j).excludes)
    (hmeans : ∃ found, (declared j).kind.Means value found) {words' : List Text}
    {given' : List (ι × Text)} (hreads' : Reads declared words' given')
    (hperm : given'.Perm ((j, value) :: given)) : parse env words' = .error .argumentConflict := by
  have hkeys : (given'.map Prod.fst).Perm (j :: given.map Prod.fst) := hperm.map Prod.fst
  have hi' : i ∈ given'.map Prod.fst := hkeys.mem_iff.mpr (List.mem_cons_of_mem j hi)
  have hj' : j ∈ given'.map Prod.fst := hkeys.mem_iff.mpr List.mem_cons_self
  cases hparse' : parse env words' with
  | ok c' =>
    rcases hexcludes with hexcludes | hexcludes
    · exact absurd hexcludes (h.exclusive hparse' hreads' hi' hj')
    · exact absurd hexcludes (h.exclusive hparse' hreads' hj' hi')
  | error e =>
    cases h.fails hparse' hreads' with
    | repeated => rfl
    | exclusive => rfl
    | @meaningless other text hsupplied hno =>
      -- what the other values mean they meant before
      exfalso
      rcases hsupplied with hgiven | ⟨hnot, henv⟩
      · rcases List.mem_cons.mp (hperm.mem_iff.mp hgiven) with heq | hgiven
        · obtain ⟨rfl, rfl⟩ := Prod.mk.inj heq
          obtain ⟨found, hfound⟩ := hmeans
          exact hno found hfound
        · exact hno _ (h.supplied hparse hreads (.inl hgiven))
      · have hnot' : other ∉ given.map Prod.fst := fun hmem =>
          hnot (hkeys.mem_iff.mpr (List.mem_cons_of_mem j hmem))
        exact hno _ (h.supplied hparse hreads (.inr ⟨hnot', henv⟩))

end Documented

end Cli

end LineShell
