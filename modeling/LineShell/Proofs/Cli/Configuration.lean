import LineShell.Proofs.Cli.Parser
import Mathlib.Data.List.Perm.Basic

/-!
# Configurations and command lines

A draft is spelled by a command line: a word for each of its settings, in any order, and its script
behind a separator (`Draft.line`). Whatever parser keeps the promises of `Documented`, reading the command
line gives the draft back.

* `Draft.exists_reads_line`: what the command line of a draft gives is what the draft holds.
* `Draft.Settles`: the history size that a draft comes to in an environment.
* `parse_line`, `parse_line_of_clash`: a command line whose draft is consistent is taken, and one whose
  settings exclude each other is a conflict.
* `configuration_read_back`: these for every order of the words, what excludes a setting of any command
  line that is taken, and which startup file follows.
-/

namespace LineShell.Cli

/-! ## Drafts as command lines -/

/-- The name of the option for a setting; the script has none. -/
def Setting.option (setting : Setting) : Text := (declared setting).long.getD []

/-- The word that spells a setting: its option, and the value behind an equals sign if it takes one. -/
def Assignment.word (a : Assignment) : Text :=
  if (declared a.1).kind = .switch then "--".toList ++ a.1.option
  else "--".toList ++ a.1.option ++ '=' :: a.2

/-- The settings of a draft that options spell, one after another. -/
def Draft.assignments (d : Draft) : List Assignment :=
  d.command.toList.map (Setting.command, ·) ++
    d.historySize.toList.map (fun size => (Setting.historySize, Text.ofNat size)) ++
    d.rcfile.toList.map (Setting.rcfile, ·) ++ if d.norc then [(Setting.norc, [])] else []

/-- A word for each setting of a draft, the script apart. -/
def Draft.words (d : Draft) : List Text :=
  d.assignments.map Assignment.word

/-- The command line of a draft, with the words of its options in some order. -/
def Draft.line (d : Draft) (words : List Text) : List Text :=
  match d.script with
  | none => words
  | some path => words ++ ["--".toList, path]

/-- All that a draft holds. -/
def Draft.given (d : Draft) : List Assignment :=
  d.assignments ++ d.script.toList.map (Setting.script, ·)

/-- The values of a draft can be spelled. -/
structure Draft.Spellable (d : Draft) : Prop where
  size : ∀ size, d.historySize = some size → size < Nat.pow 2 64
  rcfile : d.rcfile ≠ some []
  script : d.script ≠ some []

/-- A draft whose values can be spelled and whose settings do not exclude each other. -/
structure Draft.Consistent (d : Draft) : Prop extends d.Spellable where
  startup : d.norc = true → d.rcfile = none
  source : d.command.isSome → d.script = none

/-- What is given for a setting is what the draft holds of it. -/
theorem Draft.mem_given {d : Draft} {i : Setting} {value : Text} (h : (i, value) ∈ d.given) :
    match i with
    | .command => d.command = some value
    | .historySize => ∃ size, d.historySize = some size ∧ value = Text.ofNat size
    | .rcfile => d.rcfile = some value
    | .norc => d.norc = true ∧ value = []
    | .script => d.script = some value := by
  simp only [Draft.given, assignments, List.mem_append, List.mem_map, Option.mem_toList] at h
  rcases h with (((⟨line, hline, heq⟩ | ⟨size, hsize, heq⟩) | ⟨path, hpath, heq⟩) | hnorc) | ⟨path, hpath, heq⟩
  · obtain ⟨rfl, rfl⟩ := Prod.mk.inj heq
    exact hline
  · obtain ⟨rfl, rfl⟩ := Prod.mk.inj heq
    exact ⟨size, hsize, rfl⟩
  · obtain ⟨rfl, rfl⟩ := Prod.mk.inj heq
    exact hpath
  · split at hnorc
    · rename_i htrue
      obtain ⟨rfl, rfl⟩ := Prod.mk.inj (List.mem_singleton.mp hnorc)
      exact ⟨htrue, rfl⟩
    · exact absurd hnorc List.not_mem_nil
  · obtain ⟨rfl, rfl⟩ := Prod.mk.inj heq
    exact hpath

theorem Draft.mem_keys_iff {d : Draft} {i : Setting} : i ∈ d.given.map Prod.fst ↔ d.has i = true := by
  obtain ⟨command, size, rcfile, norc, script⟩ := d
  cases i <;> cases command <;> cases size <;> cases rcfile <;> cases norc <;> cases script <;>
    simp [given, assignments, has]

theorem Draft.nodup_given (d : Draft) : (d.given.map Prod.fst).Nodup := by
  obtain ⟨command, size, rcfile, norc, script⟩ := d
  cases command <;> cases size <;> cases rcfile <;> cases norc <;> cases script <;> simp [given, assignments]

/-- The word of a setting spells it, if an option does. -/
theorem Assignment.spells {a : Assignment} (hscript : a.1 ≠ .script) (hnorc : a.1 = .norc → a.2 = []) :
    Spells (declared a.1) [a.word] a.2 := by
  obtain ⟨setting, value⟩ := a
  cases setting with
  | command => exact .attached value rfl nofun
  | historySize => exact .attached value rfl nofun
  | rcfile => exact .attached value rfl nofun
  | norc =>
    obtain rfl := hnorc rfl
    exact .switch rfl rfl
  | script => exact absurd rfl hscript

/-- Words of settings in front of a command line give these settings besides. -/
theorem Reads.words {assignments : List Assignment} (h : ∀ a ∈ assignments, a.1 ≠ .script)
    (hnorc : ∀ a ∈ assignments, a.1 = .norc → a.2 = []) {rest : List Text} {given : List Assignment}
    (hrest : Reads declared rest given) :
    Reads declared (assignments.map Assignment.word ++ rest) (assignments ++ given) := by
  induction assignments with
  | nil => exact hrest
  | cons a others ih =>
    obtain ⟨hscript, hscripts⟩ := List.forall_mem_cons.mp h
    obtain ⟨hswitch, hswitches⟩ := List.forall_mem_cons.mp hnorc
    have hspells := Assignment.spells hscript hswitch
    change Reads declared ([a.word] ++ (others.map Assignment.word ++ rest)) (a :: (others ++ given))
    exact .next hspells (fun hlong => absurd (eq_script_of_long hlong) hscript) (ih hscripts hswitches)

/-- **The command line of a draft gives what the draft holds**, whatever the order of its words. -/
theorem Draft.exists_reads_line (d : Draft) {words : List Text} (hwords : words.Perm d.words) :
    ∃ given, Reads declared (d.line words) given ∧ given.Perm d.given := by
  -- the words in their order spell the settings in some order
  have hcomp : Relation.Comp (· = List.map Assignment.word ·) (·.Perm ·) words d.assignments := by
    rw [List.eq_map_comp_perm]
    exact hwords
  obtain ⟨assignments, rfl, hperm⟩ := hcomp
  have hmem (a : Assignment) (ha : a ∈ assignments) : a ∈ d.assignments := hperm.mem_iff.mp ha
  have hscript : ∀ a ∈ assignments, a.1 ≠ .script := by
    intro a ha
    have hassigned := hmem a ha
    simp only [Draft.assignments, List.mem_append, List.mem_map] at hassigned
    rcases hassigned with ((⟨line, -, rfl⟩ | ⟨size, -, rfl⟩) | ⟨path, -, rfl⟩) | hnorc
    · exact nofun
    · exact nofun
    · exact nofun
    · split at hnorc
      · rw [List.mem_singleton.mp hnorc]
        exact nofun
      · exact absurd hnorc List.not_mem_nil
  have hnorc : ∀ a ∈ assignments, a.1 = .norc → a.2 = [] := by
    rintro ⟨setting, value⟩ ha rfl
    have hgiven : (Setting.norc, value) ∈ d.given := List.mem_append_left _ (hmem _ ha)
    exact (Draft.mem_given hgiven).2
  unfold Draft.line Draft.given
  cases d.script with
  | none =>
    have hreads := Reads.words hscript hnorc .nil
    rw [List.append_nil] at hreads
    exact ⟨_, hreads, hperm.append_right []⟩
  | some path =>
    have htail : Reads declared ["--".toList, path] [(.script, path)] := .separated path rfl rfl
    exact ⟨_, Reads.words hscript hnorc htail, hperm.append_right [(.script, path)]⟩

/-! ## What a draft comes to -/

/-- The history size that a draft comes to: its own, else that of the environment, else a hundred. -/
structure Draft.Settles (d : Draft) (env : Environment) (size : Nat) : Prop where
  given : ∀ own, d.historySize = some own → own = size
  inherited : d.historySize = none → ∀ value, env.historySize = some value → Text.Denotes value size
  absent : d.historySize = none → env.historySize = none → size = 100

theorem eq_of_field {c c' : Config} (h : ∀ i, c.field i = c'.field i) : c = c' := by
  obtain ⟨command, size, rcfile, norc, script⟩ := c
  obtain ⟨command', size', rcfile', norc', script'⟩ := c'
  obtain rfl : command = command' := h .command
  obtain rfl : size = size' := h .historySize
  obtain rfl : rcfile = rcfile' := h .rcfile
  obtain rfl : norc = norc' := h .norc
  obtain rfl : script = script' := h .script
  rfl

section

variable {d : Draft} {env : Environment} {size : Nat} {given : List Assignment}

/-- What a draft holds means what its configuration holds. -/
theorem Draft.means_given (h : d.Spellable) (hsize : ∀ own, d.historySize = some own → own = size)
    {i : Setting} {value : Text} (hgiven : (i, value) ∈ d.given) :
    (declared i).kind.Means value ((d.config size).field i) := by
  have hholds := Draft.mem_given hgiven
  cases i with
  | command => exact hholds
  | norc => exact hholds.1
  | historySize =>
    obtain ⟨own, hown, rfl⟩ := hholds
    obtain rfl := hsize own hown
    exact Text.denotes_ofNat (h.size own hown)
  | rcfile =>
    refine ⟨?_, hholds⟩
    rintro rfl
    exact h.rcfile hholds
  | script =>
    refine ⟨?_, hholds⟩
    rintro rfl
    exact h.script hholds

/-- **What is supplied means what the configuration of the draft holds.** -/
theorem Draft.Settles.means (h : d.Settles env size) (hspellable : d.Spellable) (hperm : given.Perm d.given)
    {i : Setting} {value : Text} (hsupplied : Supplied declared env given i value) :
    (declared i).kind.Means value ((d.config size).field i) := by
  rcases hsupplied with hgiven | ⟨hnot, henv⟩
  · exact Draft.means_given hspellable h.given (hperm.mem_iff.mp hgiven)
  · cases i with
    | command | rcfile | norc | script => cases henv
    | historySize =>
      have hnone : d.historySize = none := by
        rw [(hperm.map Prod.fst).mem_iff, Draft.mem_keys_iff] at hnot
        exact Option.not_isSome_iff_eq_none.mp hnot
      exact h.inherited hnone value henv

/-- Where nothing is supplied the configuration of the draft holds the default. -/
theorem Draft.Settles.field_absent (h : d.Settles env size) (hperm : given.Perm d.given) {i : Setting}
    (hnot : i ∉ given.map Prod.fst) (henv : (declared i).inherited env = none) :
    (d.config size).field i = (declared i).absent := by
  rw [(hperm.map Prod.fst).mem_iff, Draft.mem_keys_iff] at hnot
  cases i with
  | command | rcfile | script => exact Option.not_isSome_iff_eq_none.mp hnot
  | norc => exact Bool.eq_false_iff.mpr hnot
  | historySize => exact h.absent (Option.not_isSome_iff_eq_none.mp hnot) henv

/-- The settings of a consistent draft do not exclude each other. -/
theorem Draft.Consistent.not_excludes (h : d.Consistent) {i j : Setting} (hi : d.has i = true)
    (hj : d.has j = true) : j ∉ (declared i).excludes := by
  have hstartup := h.startup
  have hsource := h.source
  cases i with
  | command | historySize | norc => exact List.not_mem_nil
  | rcfile =>
    intro hexcludes
    obtain rfl := List.mem_singleton.mp hexcludes
    have hnone : d.rcfile = none := hstartup hj
    change d.rcfile.isSome = true at hi
    rw [hnone] at hi
    cases hi
  | script =>
    intro hexcludes
    obtain rfl := List.mem_singleton.mp hexcludes
    have hnone : d.script = none := hsource hj
    change d.script.isSome = true at hi
    rw [hnone] at hi
    cases hi

/-! ## Reading a draft back -/

variable {parse : Environment → List Text → Except UsageError Config} {words : List Text}

section

variable (h : Documented declared Config.field parse) (hwords : words.Perm d.words)

include h hwords

/-- **A consistent draft is read back**, whatever the order of its words. -/
theorem parse_line (hd : d.Consistent) (hsize : d.Settles env size) :
    parse env (d.line words) = .ok (d.config size) := by
  obtain ⟨given, hreads, hperm⟩ := d.exists_reads_line hwords
  have hkeys := hperm.map Prod.fst
  refine h.parse_eq hreads (fun _ _ => eq_of_field) (fun e hfault => ?_)
    (fun i value hsupplied => hsize.means hd.toSpellable hperm hsupplied)
    (fun i hnot henv => hsize.field_absent hperm hnot henv)
  cases hfault with
  | repeated hrepeated => exact hrepeated (hkeys.nodup_iff.mpr d.nodup_given)
  | exclusive hi hj hexcludes =>
    exact hd.not_excludes (Draft.mem_keys_iff.mp (hkeys.mem_iff.mp hi))
      (Draft.mem_keys_iff.mp (hkeys.mem_iff.mp hj)) hexcludes
  | meaningless hsupplied hno => exact hno _ (hsize.means hd.toSpellable hperm hsupplied)

/-- **Settings that exclude each other are a conflict**, whatever the order of their words. -/
theorem parse_line_of_clash (hd : d.Spellable) (hclash : d.clash = true) (hsize : d.Settles env size) :
    parse env (d.line words) = .error .argumentConflict := by
  obtain ⟨given, hreads, hperm⟩ := d.exists_reads_line hwords
  have hkeys := hperm.map Prod.fst
  obtain ⟨i, j, hi, hj, hexcludes⟩ := Draft.clash_eq_true_iff.mp hclash
  cases hparse : parse env (d.line words) with
  | ok c =>
    exact absurd hexcludes (h.exclusive hparse hreads (hkeys.mem_iff.mpr (Draft.mem_keys_iff.mpr hi))
      (hkeys.mem_iff.mpr (Draft.mem_keys_iff.mpr hj)))
  | error e =>
    cases h.fails hparse hreads with
    | repeated => rfl
    | exclusive => rfl
    | meaningless hsupplied hno => exact absurd (hsize.means hd hperm hsupplied) (hno _)

/-- **A history size in the environment that is no count is a fault**, if none is given. -/
theorem parse_line_of_malformed (hd : d.Consistent) (hnone : d.historySize = none) {value : Text}
    (henv : env.historySize = some value) (hno : ∀ size, ¬ Text.Denotes value size) :
    parse env (d.line words) = .error .valueValidation := by
  obtain ⟨given, hreads, hperm⟩ := d.exists_reads_line hwords
  have hkeys := hperm.map Prod.fst
  have hnot : .historySize ∉ given.map Prod.fst := by
    rw [hkeys.mem_iff, Draft.mem_keys_iff]
    change ¬ d.historySize.isSome = true
    rw [hnone]
    exact Bool.false_ne_true
  cases hparse : parse env (d.line words) with
  | ok c =>
    have hsupplied : Supplied declared env given .historySize value := .inr ⟨hnot, henv⟩
    exact absurd (h.supplied hparse hreads hsupplied) (hno _)
  | error e =>
    cases h.fails hparse hreads with
    | repeated hrepeated => exact absurd (hkeys.nodup_iff.mpr d.nodup_given) hrepeated
    | exclusive hi hj hexcludes =>
      exact absurd hexcludes (hd.not_excludes (Draft.mem_keys_iff.mp (hkeys.mem_iff.mp hi))
        (Draft.mem_keys_iff.mp (hkeys.mem_iff.mp hj)))
    | @meaningless i text hsupplied hmeaningless =>
      rcases hsupplied with hgiven | ⟨-, hinherited⟩
      · have hsize (own : Nat) (hown : d.historySize = some own) : own = 0 := by
          rw [hnone] at hown
          cases hown
        exact absurd (Draft.means_given hd.toSpellable hsize (hperm.mem_iff.mp hgiven)) (hmeaningless _)
      · cases i with
        | command | rcfile | norc | script => cases hinherited
        | historySize => rfl

end

/-- The configuration has a setting that excludes this one. -/
def Setting.ExcludedBy (c : Config) : Setting → Prop
  | .command => c.script.isSome
  | .historySize => False
  | .rcfile => c.norc
  | .norc => c.rcfile.isSome
  | .script => c.command.isSome

/-- **A setting beside one that excludes it is a conflict**, in any command line that is taken without it,
and wherever it is put. -/
theorem parse_of_excluded (h : Documented declared Config.field parse) {c : Config}
    (hparse : parse env words = .ok c) (hreads : Reads declared words given) {a : Assignment}
    (hexcluded : a.1.ExcludedBy c) (hright : a.Right) {words' : List Text} {given' : List Assignment}
    (hreads' : Reads declared words' given') (hperm : given'.Perm (a :: given)) :
    parse env words' = .error .argumentConflict := by
  have hgiven {i : Setting} (henv : (declared i).inherited env = none)
      (hfield : c.field i ≠ (declared i).absent) : i ∈ given.map Prod.fst := by
    obtain ⟨value, hmem⟩ := h.exists_given hparse hreads henv hfield
    exact List.mem_map_of_mem (f := Prod.fst) hmem
  have hsome {value : Option Text} (h : value.isSome = true) : value ≠ none := by
    rintro rfl
    cases h
  obtain ⟨setting, value⟩ := a
  cases setting with
  | command =>
    have hscript : .script ∈ given.map Prod.fst := hgiven rfl (hsome hexcluded)
    exact h.parse_besides hparse hreads hscript (.inl (List.mem_singleton_self _)) hright hreads' hperm
  | historySize => exact hexcluded.elim
  | rcfile =>
    have hnorc : .norc ∈ given.map Prod.fst := hgiven rfl (ne_of_eq_of_ne hexcluded Bool.noConfusion)
    exact h.parse_besides hparse hreads hnorc (.inr (List.mem_singleton_self _)) hright hreads' hperm
  | norc =>
    have hrcfile : .rcfile ∈ given.map Prod.fst := hgiven rfl (hsome hexcluded)
    exact h.parse_besides hparse hreads hrcfile (.inl (List.mem_singleton_self _)) hright hreads' hperm
  | script =>
    have hcommand : .command ∈ given.map Prod.fst := hgiven rfl (hsome hexcluded)
    exact h.parse_besides hparse hreads hcommand (.inr (List.mem_singleton_self _)) hright hreads' hperm

/-- A configuration that was read has no startup file beside the wish to do without one. -/
theorem norc_of_rcfile (h : Documented declared Config.field parse) {c : Config}
    (hparse : parse env words = .ok c) {path : Text} (hrcfile : c.rcfile = some path) : c.norc = false := by
  obtain ⟨given, hreads⟩ := h.reads hparse
  by_contra hnorc
  have htrue : c.norc = true := by simpa using hnorc
  obtain ⟨value, hvalue⟩ := h.exists_given hparse hreads (i := .norc) rfl
    (ne_of_eq_of_ne htrue Bool.noConfusion)
  obtain ⟨other, hother⟩ := h.exists_given hparse hreads (i := .rcfile) rfl (by
    change c.rcfile ≠ none
    rw [hrcfile]
    exact nofun)
  exact h.exclusive hparse hreads (List.mem_map_of_mem (f := Prod.fst) hother)
    (List.mem_map_of_mem (f := Prod.fst) hvalue) (List.mem_singleton_self _)

end

/-! ## The round trip -/

/-- **Configurations and command lines**, for every parser that keeps its promises.

* A consistent draft is read back from the words of its options in any order and its script behind a
  separator, with the history size given in it; without one, with what the environment spells, or a
  hundred if it spells nothing; what spells no count is a fault.
* Settings that exclude each other are a conflict, in any order, as soon as the history size is settled.
* A command line that is taken spells arguments. One that gives the same and besides a setting that is
  excluded by one of these is a conflict, in whatever order and with whatever spellings.
* Of a configuration that was read, the startup file is none if there shall be none, else the file
  given, else the one at home. -/
theorem configuration_read_back {parse : Environment → List Text → Except UsageError Config}
    (h : Documented declared Config.field parse) :
    (∀ d : Draft, d.Consistent → ∀ words : List Text, words.Perm d.words → ∀ env : Environment,
      (∀ size, d.historySize = some size → parse env (d.line words) = .ok (d.config size)) ∧
      (d.historySize = none →
        (env.historySize = none → parse env (d.line words) = .ok (d.config 100)) ∧
        (∀ value size, env.historySize = some value → Text.Denotes value size →
          parse env (d.line words) = .ok (d.config size)) ∧
        (∀ value, env.historySize = some value → (∀ size, ¬ Text.Denotes value size) →
          parse env (d.line words) = .error .valueValidation))) ∧
    (∀ d : Draft, d.Spellable → d.clash = true → ∀ words : List Text, words.Perm d.words →
      ∀ env size, d.Settles env size → parse env (d.line words) = .error .argumentConflict) ∧
    (∀ env words c, parse env words = .ok c → (∃ given, Reads declared words given) ∧
      ∀ given, Reads declared words given → ∀ a : Assignment, a.1.ExcludedBy c → a.Right →
        ∀ words' given', Reads declared words' given' → given'.Perm (a :: given) →
          parse env words' = .error .argumentConflict) ∧
    ∀ env words c, parse env words = .ok c →
      (c.norc = true → c.rcPath env = none) ∧
      (∀ path, c.rcfile = some path → c.rcPath env = some path) ∧
      (c.norc = false → c.rcfile = none →
        c.rcPath env = env.home.map fun home => joinPath home ".vshrc".toList) := by
  refine ⟨fun d hd words hwords env => ⟨fun size hsize => ?_, fun hnone => ⟨fun henv => ?_,
    fun value size hvalue hdenotes => ?_, fun value hvalue hno => ?_⟩⟩,
    fun d hd hclash words hwords env size hsize => parse_line_of_clash h hwords hd hclash hsize,
    fun env words c hparse => ⟨h.reads hparse,
      fun given hreads a hexcluded hright words' given' hreads' hperm =>
        parse_of_excluded h hparse hreads hexcluded hright hreads' hperm⟩,
    fun env words c hparse => ⟨fun hnorc => ?_, fun path hrcfile => ?_, fun hnorc hrcfile => ?_⟩⟩
  · refine parse_line h hwords hd ⟨fun own hown => ?_, fun hnone => ?_, fun hnone => ?_⟩
    · exact Option.some.inj (hown.symm.trans hsize)
    · exact absurd (hsize.symm.trans hnone) (Option.some_ne_none size)
    · exact absurd (hsize.symm.trans hnone) (Option.some_ne_none size)
  · refine parse_line h hwords hd ⟨fun own hown => ?_, fun _ value hvalue => ?_, fun _ _ => rfl⟩
    · exact absurd (hown.symm.trans hnone) (Option.some_ne_none own)
    · exact absurd (hvalue.symm.trans henv) (Option.some_ne_none value)
  · refine parse_line h hwords hd ⟨fun own hown => ?_, fun _ other hother => ?_, fun _ habsent => ?_⟩
    · exact absurd (hown.symm.trans hnone) (Option.some_ne_none own)
    · obtain rfl := Option.some.inj (hother.symm.trans hvalue)
      exact hdenotes
    · exact absurd (hvalue.symm.trans habsent) (Option.some_ne_none value)
  · exact parse_line_of_malformed h hwords hd hnone hvalue hno
  · unfold Config.rcPath
    rw [if_pos hnorc]
  · unfold Config.rcPath
    rw [if_neg (by simp [norc_of_rcfile h hparse hrcfile]), hrcfile]
    rfl
  · unfold Config.rcPath
    rw [if_neg (by simp [hnorc]), hrcfile]
    rfl

/-- A script whose name looks like an option, read back beside an environment that spells no count; and
the wish to do without a startup file, put before the startup file of the same command line. -/
theorem configuration_read_back_misleading :
    Documented declared Config.field parse ∧
      parse ⟨some "x".toList, none, none⟩
          ["--rcfile=a".toList, "--history-size=5".toList, "--".toList, "--norc".toList] =
        .ok ⟨none, 5, some "a".toList, false, some "--norc".toList⟩ ∧
      parse ⟨some "x".toList, none, none⟩
          ["--norc".toList, "--rcfile=a".toList, "--history-size=5".toList, "--".toList, "--norc".toList] =
        .error .argumentConflict := by
  let d : Draft := ⟨none, some 5, some "a".toList, false, some "--norc".toList⟩
  have hconsistent : d.Consistent := {
    size := fun size h => by
      obtain rfl := Option.some.inj h
      decide
    rcfile := by decide
    script := by decide
    startup := by decide
    source := by decide }
  obtain ⟨hback, -, hbesides, -⟩ := configuration_read_back parse_documented
  have hread := (hback d hconsistent ["--rcfile=a".toList, "--history-size=5".toList] (by decide)
    ⟨some "x".toList, none, none⟩).1 5 rfl
  have hscript : Reads declared ["--".toList, "--norc".toList] [(.script, "--norc".toList)] :=
    .separated _ rfl rfl
  have hwords : ["--rcfile=a".toList, "--history-size=5".toList] =
      [(Setting.rcfile, ['a']), (Setting.historySize, ['5'])].map Assignment.word := by decide
  have hreads : Reads declared (d.line ["--rcfile=a".toList, "--history-size=5".toList])
      ([(.rcfile, ['a']), (.historySize, ['5'])] ++ [(.script, "--norc".toList)]) := by
    rw [hwords]
    exact Reads.words (by simp) (by simp) hscript
  have hswitch : Spells (declared .norc) ["--norc".toList] [] := .switch rfl rfl
  exact ⟨parse_documented, hread, (hbesides _ _ _ hread).2 _ hreads (.norc, []) rfl ⟨true, rfl⟩ _ _
    (.next hswitch nofun hreads) (.refl _)⟩

end LineShell.Cli
