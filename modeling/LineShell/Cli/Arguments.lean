import LineShell.Cli.Config

/-!
# The declared arguments

What a run is asked to do is declared argument by argument: how an argument is named, what its value is,
where a value comes from if none is given, and which arguments exclude it. The parser is derived from
these declarations; `Cli.declared` are those of a run, and each of them fills one field of its
configuration (`Config.field`).
-/

namespace LineShell

/-- How the value of an argument is understood. -/
inductive ValueKind where
  | text
  | path
  | count
  /-- An option without a value. -/
  | switch
  deriving DecidableEq, Repr

/-- What the field of an argument holds. A text or a path may be missing. -/
def ValueKind.Result : ValueKind → Type
  | .text => Option Text
  | .path => Option Text
  | .count => Nat
  | .switch => Bool

/-- The declaration of an argument, among others that are told apart by `ι`. -/
structure Argument (ι : Type) where
  /-- The name behind two dashes; an argument without one is told by its place. -/
  long : Option Text
  /-- The letter behind one dash. -/
  short : Option Char
  kind : ValueKind
  /-- The variable of the environment that gives a value where none is given. -/
  inherited : Environment → Option Text
  /-- What the field holds where there is no value at all. -/
  absent : kind.Result
  /-- The arguments that it may not stand beside. -/
  excludes : List ι

namespace Cli

/-- What an argument can set. -/
inductive Setting where
  | command
  | historySize
  | rcfile
  | norc
  | script
  deriving DecidableEq, Repr

/-- The arguments of a run (the attributes of `Cli`). -/
def declared : Setting → Argument Setting
  | .command => ⟨some "command".toList, some 'c', .text, fun _ => none, (none : Option Text), []⟩
  | .historySize =>
    ⟨some "history-size".toList, none, .count, Environment.historySize, History.defaultCapacity, []⟩
  | .rcfile => ⟨some "rcfile".toList, none, .path, fun _ => none, (none : Option Text), [.norc]⟩
  | .norc => ⟨some "norc".toList, none, .switch, fun _ => none, false, []⟩
  | .script => ⟨none, none, .path, fun _ => none, (none : Option Text), [.command]⟩

end Cli

/-- The field of a configuration that an argument fills. -/
def Config.field (c : Config) : (setting : Cli.Setting) → (Cli.declared setting).kind.Result
  | .command => c.command
  | .historySize => c.historySize
  | .rcfile => c.rcfile
  | .norc => c.norc
  | .script => c.script

end LineShell
