import LineShell.Proofs.Kernel.Launch
import LineShell.Proofs.Kernel.Laws
import LineShell.Proofs.Session.Launches

/-!
# Built-ins and the parser

Built-ins are recognized on the raw line, before it is parsed. The two readings of the line agree.

* `Text.OperatorFree`: a line without `|`, `;` and `&&`. It is parsed as one command, if it has a word at
  all (`Line.parse?_of_operatorFree`).
* `Builtin.AskedBy`: what a line that asks for a built-in is parsed as.
* `Builtin.recognize?_iff_askedBy`: these lines are the ones that are recognized.
* `Session.launches_of_operatorFree`: a dispatch of an operator-free line launches its command, unless
  that is a built-in.
* `Session.builtins_recognized`: so no launch has the name of a built-in for its first word. Its program
  may still be one, behind a redirection: built-ins are recognized by the first word alone.
-/

namespace LineShell

/-- A text without the operators that join commands. -/
def Text.OperatorFree (line : Text) : Prop :=
  '|' ∉ line ∧ ';' ∉ line ∧ ¬ Text.HoldsAnd line

instance : DecidablePred Text.OperatorFree := fun _ => inferInstanceAs (Decidable (_ ∧ _ ∧ _))

/-- A text without operators is read as one command. -/
theorem Line.parse?_of_operatorFree {line : Text} (h : line.OperatorFree) :
    parse? line = (Command.parse? line).map fun command => .sequence [.simple command] := by
  obtain ⟨hbar, hsemicolon, hand⟩ := h
  rw [Flat.parse?_of_no_bar hbar, Segment.parseAll?_of_not_mem hsemicolon,
    Segment.parse?_of_no_cut (Text.cutAtAnd_eq_none_iff.mpr hand), Option.map_map, Option.map_map]
  rfl

theorem Line.parse?_eq_simple_iff {line : Text} (h : line.OperatorFree) {command : Command} :
    parse? line = some (.sequence [.simple command]) ↔ Command.parse? line = some command := by
  rw [parse?_of_operatorFree h]
  cases Command.parse? line <;> simp

namespace Builtin

/-! ## What asks for a built-in -/

/-- The word that asks for a built-in. -/
def name : Builtin → Text
  | .exit _ => "exit".toList
  | .history _ => "history".toList

/-- The argument of a built-in. -/
def argument : Builtin → Option Text
  | .exit argument | .history argument => argument

/-- A line asks for a built-in when it has no operators and is parsed as one command, of which the first
word is the name and the second, if there is one, the argument. -/
def AskedBy (builtin : Builtin) (line : Text) : Prop :=
  line.OperatorFree ∧ ∃ command, Line.parse? line = some (.sequence [.simple command]) ∧
    command.words[0]? = some builtin.name ∧ command.words[1]? = builtin.argument

/-- On a line with operators no built-in is recognized. -/
theorem recognize?_of_operator {line : Text} (h : ¬ line.OperatorFree) : recognize? line = none := by
  unfold recognize?
  rw [if_pos]
  unfold Text.OperatorFree at h
  rw [← Text.cutAtAnd_eq_none_iff] at h
  by_cases hbar : '|' ∈ line
  · simp [hbar]
  · by_cases hsemicolon : ';' ∈ line
    · simp [hsemicolon]
    · have hand : Text.cutAtAnd line ≠ none := fun hnone => h ⟨hbar, hsemicolon, hnone⟩
      simp [Option.isSome_iff_ne_none.mpr hand]

/-- On any other line the words decide. -/
theorem recognize?_of_operatorFree {line : Text} (h : line.OperatorFree) (builtin : Builtin) :
    recognize? line = some builtin ↔
      (Text.words line)[0]? = some builtin.name ∧ (Text.words line)[1]? = builtin.argument := by
  obtain ⟨hbar, hsemicolon, hand⟩ := h
  unfold recognize?
  rw [if_neg (by simp [hbar, hsemicolon, Text.cutAtAnd_eq_none_iff.mpr hand])]
  cases Text.words line with
  | nil => simp
  | cons first rest =>
    have hsecond : (first :: rest)[1]? = rest.head? := by
      cases rest <;> rfl
    rw [hsecond]
    simp only [List.getElem?_cons_zero, Option.some.injEq]
    by_cases hexit : first = "exit".toList
    · rw [if_pos hexit]
      cases builtin with
      | exit other =>
        refine ⟨fun h => ⟨hexit, ?_⟩, fun ⟨_, hargument⟩ => hargument ▸ rfl⟩
        exact exit.inj (Option.some.inj h)
      | history other =>
        have hname : first ≠ (history other).name := by
          rw [hexit]
          exact (by decide : "exit".toList ≠ "history".toList)
        simp [hname]
    · rw [if_neg hexit]
      by_cases hhistory : first = "history".toList
      · rw [if_pos hhistory]
        cases builtin with
        | exit other =>
          have hname : first ≠ (exit other).name := hexit
          simp [hname]
        | history other =>
          refine ⟨fun h => ⟨hhistory, ?_⟩, fun ⟨_, hargument⟩ => hargument ▸ rfl⟩
          exact history.inj (Option.some.inj h)
      · rw [if_neg hhistory]
        have hname : first ≠ builtin.name := by
          cases builtin with
          | exit other => exact hexit
          | history other => exact hhistory
        simp [hname]

/-- **A line asks for a built-in exactly when it is recognized.** The words that the limit drops come
after those that decide. -/
theorem recognize?_iff_askedBy (line : Text) (builtin : Builtin) :
    recognize? line = some builtin ↔ builtin.AskedBy line := by
  unfold AskedBy
  by_cases hfree : line.OperatorFree
  · have hkept : ∀ i, i < 2 → ((Text.words line).take Command.maxWords)[i]? = (Text.words line)[i]? :=
      fun i hi => List.getElem?_take_of_lt (Nat.lt_of_lt_of_le hi (by decide))
    simp only [recognize?_of_operatorFree hfree, Line.parse?_eq_simple_iff hfree,
      Command.parse?_eq_some_iff]
    rw [← hkept 0 (by decide), ← hkept 1 (by decide)]
    constructor
    · rintro ⟨hname, hargument⟩
      have hne : (Text.words line).take Command.maxWords ≠ [] := by
        intro hnil
        rw [hnil] at hname
        exact absurd hname (by simp)
      exact ⟨hfree, ⟨_⟩, ⟨rfl, hne⟩, hname, hargument⟩
    · rintro ⟨-, command, ⟨hwords, -⟩, hname, hargument⟩
      rw [← hwords]
      exact ⟨hname, hargument⟩
  · rw [recognize?_of_operator hfree]
    simp [hfree]

end Builtin

namespace Session

variable {W : Type u}

/-! ## What is launched -/

/-- A dispatch of a line without operators launches its command, unless that is a built-in. -/
theorem launches_of_operatorFree (host : Host W) {line : Text} (h : line.OperatorFree) (record : Bool)
    (s : Session) (w : W) :
    s.launches host line record w =
      match Builtin.recognize? line, Command.parse? line with
      | none, some command => [⟨[command], w⟩]
      | _, _ => [] := by
  cases hbuiltin : Builtin.recognize? line with
  | some builtin => exact launches_of_builtin host hbuiltin record s w
  | none =>
    have hparse := Line.parse?_of_operatorFree h
    cases hcommand : Command.parse? line with
    | none =>
      rw [hcommand] at hparse
      exact launches_of_nothing host hbuiltin hparse record s w
    | some command =>
      rw [hcommand] at hparse
      rw [launches_of_line host hbuiltin hparse]
      rfl

section

variable {host : Host W} {line : Text} {record : Bool} {s : Session} {w : W} {launch : Launch W}
  {command : Command}

theorem of_mem_launches (h : line.OperatorFree) (hlaunch : launch ∈ s.launches host line record w)
    (hcommand : command ∈ launch.commands) :
    Builtin.recognize? line = none ∧ Command.parse? line = some command := by
  rw [launches_of_operatorFree host h] at hlaunch
  cases hbuiltin : Builtin.recognize? line with
  | some builtin =>
    rw [hbuiltin] at hlaunch
    exact absurd hlaunch (by simp)
  | none =>
    cases hparse : Command.parse? line with
    | none =>
      rw [hbuiltin, hparse] at hlaunch
      exact absurd hlaunch (by simp)
    | some parsed =>
      rw [hbuiltin, hparse] at hlaunch
      obtain rfl := List.mem_singleton.mp hlaunch
      obtain rfl := List.mem_singleton.mp hcommand
      exact ⟨rfl, rfl⟩

/-- No command that a line without operators launches has the name of a built-in for its first word. -/
theorem name?_ne_of_mem_launches (h : line.OperatorFree)
    (hlaunch : launch ∈ s.launches host line record w) (hcommand : command ∈ launch.commands)
    (builtin : Builtin) : command.name? ≠ some builtin.name := by
  obtain ⟨hnone, hparse⟩ := of_mem_launches h hlaunch hcommand
  intro hname
  have hline := (Line.parse?_eq_simple_iff h).mpr hparse
  have hfirst : command.words[0]? = some builtin.name := List.head?_eq_getElem? ▸ hname
  -- the same name with the argument that the line has
  obtain ⟨other, hother, hargument⟩ : ∃ other : Builtin,
      other.name = builtin.name ∧ other.argument = command.words[1]? := by
    cases builtin with
    | exit _ => exact ⟨.exit command.words[1]?, rfl, rfl⟩
    | history _ => exact ⟨.history command.words[1]?, rfl, rfl⟩
  have hasked : other.AskedBy line := ⟨h, command, hline, hother ▸ hfirst, hargument.symm⟩
  rw [← Builtin.recognize?_iff_askedBy, hnone] at hasked
  exact absurd hasked (by simp)

/-- The program of a command that a line without operators launches has the name of a built-in only
behind a redirection. -/
theorem redirected_of_program?_eq (h : line.OperatorFree)
    (hlaunch : launch ∈ s.launches host line record w) (hcommand : command ∈ launch.commands)
    {builtin : Builtin} (hprogram : command.program? = some builtin.name) :
    ∃ direction, command.name? = some (Direction.operator direction) := by
  have hname := name?_ne_of_mem_launches h hlaunch hcommand builtin
  obtain ⟨name, hfirst⟩ : ∃ name, command.name? = some name := by
    obtain ⟨-, hparse⟩ := of_mem_launches h hlaunch hcommand
    exact Option.isSome_iff_exists.mp (Command.wellFormed_of_parse? hparse).name?
  cases hword : Direction.ofWord? name with
  | some direction =>
    rw [Direction.ofWord?_eq_some_iff.mp hword] at hfirst
    exact ⟨direction, hfirst⟩
  | none =>
    have hsame := Command.program?_eq_name? hfirst hword hprogram
    rw [hfirst, hsame] at hname
    exact absurd rfl hname

end

/-- **The recognizer of built-ins and the parser agree.**

A built-in is recognized on exactly the lines that are parsed as one command of its name, without
operators; its argument is the second word. On no other line is anything recognized.

So a command that a line without operators launches never has the name of a built-in for its first word,
and the program that it asks for has that name only if the first word is a redirection. And a line that
is parsed as anything but one command is run as it was parsed, never taken for a built-in. -/
theorem builtins_recognized :
    (∀ (line : Text) (builtin : Builtin),
      Builtin.recognize? line = some builtin ↔ builtin.AskedBy line) ∧
    (∀ line, (∀ builtin : Builtin, ¬ builtin.AskedBy line) → Builtin.recognize? line = none) ∧
    ∀ (host : Host W) (line : Text) (record : Bool) (s : Session) (w : W),
      (line.OperatorFree → ∀ launch ∈ s.launches host line record w, ∀ command ∈ launch.commands,
        ∀ builtin : Builtin, command.name? ≠ some builtin.name ∧
          (command.program? = some builtin.name →
            ∃ direction, command.name? = some (Direction.operator direction))) ∧
      ∀ parsed, Line.parse? line = some parsed → (∀ command, parsed ≠ .sequence [.simple command]) →
        Builtin.recognize? line = none ∧
          s.dispatch host line record w = runLine host parsed (s.noting line record) w := by
  have hnone : ∀ line, (∀ builtin : Builtin, ¬ builtin.AskedBy line) →
      Builtin.recognize? line = none := by
    intro line h
    refine Option.eq_none_iff_forall_ne_some.mpr fun builtin hbuiltin => ?_
    exact h builtin ((Builtin.recognize?_iff_askedBy line builtin).mp hbuiltin)
  refine ⟨Builtin.recognize?_iff_askedBy, hnone, fun host line record s w => ⟨?_, ?_⟩⟩
  · intro hfree launch hlaunch command hcommand builtin
    exact ⟨name?_ne_of_mem_launches hfree hlaunch hcommand builtin,
      redirected_of_program?_eq hfree hlaunch hcommand⟩
  · intro parsed hparse hjoined
    have hbuiltin : Builtin.recognize? line = none := by
      refine hnone line fun builtin hasked => ?_
      obtain ⟨-, command, hsimple, -⟩ := hasked
      rw [hparse] at hsimple
      exact hjoined command (Option.some.inj hsimple)
    exact ⟨hbuiltin, dispatch_of_line host hbuiltin hparse record s w⟩

/-- `exit` with an argument is one command and is recognized; a `history` behind a redirection is launched
by a command that begins with the redirection; and an `exit` that feeds `cat` is a stage of its
pipeline. -/
theorem builtins_recognized_piped_exit :
    let host := Machine.host .bench (commandBody .bench)
    let m := Bench.machine 9 []
    let redirected : Command := ⟨[['>'], ['f'], "history".toList]⟩
    (Builtin.exit (some ['3'])).AskedBy " exit 3 x".toList ∧
      (start 5).launches host "> f history".toList true m = [⟨[redirected], m⟩] ∧
      redirected.program? = some (Builtin.history none).name ∧
      redirected.name? ≠ some (Builtin.history none).name ∧
      (∃ direction, redirected.name? = some (Direction.operator direction)) ∧
      Line.parse? "exit | cat".toList = some (.pipeline [⟨["exit".toList]⟩, ⟨["cat".toList]⟩]) ∧
      Builtin.recognize? "exit | cat".toList = none := by
  intro host m redirected
  obtain ⟨hrecognized, -, hdispatch⟩ := @builtins_recognized (Machine Bench)
  have hexit : Builtin.recognize? " exit 3 x".toList = some (.exit (some ['3'])) := by decide
  have hfree : Text.OperatorFree "> f history".toList := by decide
  have hlaunches : (start 5).launches host "> f history".toList true m = [⟨[redirected], m⟩] :=
    launches_of_operatorFree host hfree true (start 5) m
  have hprogram : redirected.program? = some (Builtin.history none).name := by rfl
  obtain ⟨hnames, -⟩ := hdispatch host "> f history".toList true (start 5) m
  have hlaunched := hnames hfree _ (hlaunches ▸ List.mem_singleton_self _) _
    (List.mem_singleton_self redirected) (.history none)
  have hparse : Line.parse? "exit | cat".toList =
      some (.pipeline [⟨["exit".toList]⟩, ⟨["cat".toList]⟩]) := by
    rfl
  obtain ⟨-, hjoined⟩ := hdispatch host "exit | cat".toList true (start 5) m
  have hpiped := hjoined _ hparse fun _ h => Line.noConfusion h
  exact ⟨(hrecognized _ _).mp hexit, hlaunches, hprogram, hlaunched.1, hlaunched.2 hprogram, hparse,
    hpiped.1⟩

/-- Behind a redirection `exit` is not recognized, so that a child starts a program of that name. -/
theorem exit_behind_redirection :
    let host := Machine.host .bench (commandBody .bench)
    let m := Bench.machine 9 []
    let line : Text := "< f exit".toList
    let command : Command := ⟨[['<'], ['f'], "exit".toList]⟩
    line.OperatorFree ∧ Builtin.recognize? line = none ∧
      (start 5).launches host line true m = [⟨[command], m⟩] ∧
      command.program? = some "exit".toList ∧
      (m.process.runCommand .bench command.words m.world).1 = .replaced := by
  intro host m line command
  have hfree : line.OperatorFree := by decide
  exact ⟨hfree, by decide, launches_of_operatorFree host hfree true (start 5) m, rfl, rfl⟩

end Session

end LineShell
