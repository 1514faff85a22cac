import LineShell.Cli.Arguments

/-!
# Reading the arguments

Arguments are read from left to right. `--name=value` and `-cvalue` (or `-c=value`) carry their value;
`--name value` and `-c value` take the next argument, which must not look like an option. After `--`
everything is positional, and there is room for one positional argument, the script.

An option whose value is the next argument stays *pending*, and its value is looked at only when the
next option or positional argument is taken up, or at the end. So of two faults the one met first in
this order decides:

* an unknown option, or a value given to an option that has none, is a fault as soon as it is seen;
* then the pending option is settled: it must have a value, must not be repeated, and its value must
  be valid;
* after the last argument, the history size of the environment is used if none was given, and last of
  all the options that exclude each other are looked for.
-/

namespace LineShell

/-- Why the arguments do not lead to a run. -/
inductive UsageError where
  /-- The help text was asked for. -/
  | displayHelp
  /-- The version was asked for. -/
  | displayVersion
  | unknownArgument
  /-- A value is missing, or is empty where it must not be. -/
  | invalidValue
  /-- An option that takes no value was given one. -/
  | tooManyValues
  /-- An option was repeated, or used beside one that excludes it. -/
  | argumentConflict
  /-- A value is no count. -/
  | valueValidation
  deriving DecidableEq, Repr

/-- What is said about arguments that do not lead to a run. -/
def UsageError.message : UsageError → Text
  | .displayHelp => "help was asked for".toList
  | .displayVersion => "the version was asked for".toList
  | .unknownArgument => "an argument was not expected".toList
  | .invalidValue => "a value is missing or empty".toList
  | .tooManyValues => "an option that takes no value was given one".toList
  | .argumentConflict => "options exclude each other or are repeated".toList
  | .valueValidation => "the history size is not a count".toList

/-- The line that reports a fault of the arguments. -/
def UsageError.report (e : UsageError) : Text :=
  "error: ".toList ++ e.message ++ ['\n']

namespace Cli

/-- The text that tells the version. -/
def versionText : Text := "vsh 0.1.0\n".toList

/-- The text that tells how to start a run. -/
def helpText : Text :=
  "Usage: vsh [-c LINE] [--history-size N] [--rcfile FILE | --norc] [SCRIPT]\n".toList

/-- What an option asks for. -/
inductive Flag where
  /-- An option that takes a value. -/
  | valued (setting : Setting)
  | norc
  | help
  | version
  deriving DecidableEq, Repr

/-- The declared arguments in order. -/
def settings : List Setting := [.command, .historySize, .rcfile, .norc, .script]

/-- The option for a setting. -/
def Flag.ofSetting : Setting → Flag
  | .norc => .norc
  | setting => .valued setting

/-- The option of a long name. -/
def Flag.ofLong? (name : Text) : Option Flag :=
  if name = "help".toList then some .help
  else if name = "version".toList then some .version
  else (settings.find? fun setting => (declared setting).long == some name).map ofSetting

/-- The option of a short name. -/
def Flag.ofShort? (name : Char) : Option Flag :=
  if name = 'h' then some .help
  else if name = 'V' then some .version
  else (settings.find? fun setting => (declared setting).short == some name).map ofSetting

/-- The settings made so far. -/
structure Draft where
  command : Option Text
  historySize : Option Nat
  rcfile : Option Text
  norc : Bool
  script : Option Text
  deriving DecidableEq, Repr

/-- A setting has been made. -/
def Draft.has (d : Draft) : Setting → Bool
  | .command => d.command.isSome
  | .historySize => d.historySize.isSome
  | .rcfile => d.rcfile.isSome
  | .norc => d.norc
  | .script => d.script.isSome

/-- A path must not be empty. -/
def path? (value : Text) : Except UsageError Text :=
  if value.isEmpty then .error .invalidValue else .ok value

/-- A count of entries. -/
def size? (value : Text) : Except UsageError Nat :=
  match Text.count? value with
  | some size => .ok size
  | none => .error .valueValidation

/-- Makes a setting that was not made before. -/
def Draft.set (d : Draft) (setting : Setting) (value : Text) : Except UsageError Draft :=
  if d.has setting then .error .argumentConflict
  else
    match setting with
    | .command => .ok { d with command := some value }
    | .historySize => (size? value).map fun size => { d with historySize := some size }
    | .rcfile => (path? value).map fun path => { d with rcfile := some path }
    | .norc => .ok { d with norc := true }
    | .script => (path? value).map fun path => { d with script := some path }

/-- The state between two arguments. -/
structure Progress where
  draft : Draft
  /-- The setting taken up last, and its value if that has been seen. -/
  pending : Option (Setting × Option Text)
  /-- The positional argument has been seen. -/
  positional : Bool
  /-- A `--` has been seen. -/
  trailing : Bool

/-- Nothing has been read. -/
def Progress.start : Progress := ⟨⟨none, none, none, false, none⟩, none, false, false⟩

/-- Settles the pending option. -/
def Progress.settle (p : Progress) : Except UsageError Progress :=
  match p.pending with
  | none => .ok p
  | some (_, none) => .error .invalidValue
  | some (setting, some value) =>
    (p.draft.set setting value).map fun draft => { p with draft, pending := none }

/-- Takes up an option, with the value that is attached to it if there is one. -/
def Progress.takeFlag (p : Progress) : Flag → Option Text → Except UsageError Progress
  | .valued setting, some value => do
    let p ← p.settle
    let draft ← p.draft.set setting value
    return { p with draft }
  | .valued setting, none => do
    let p ← p.settle
    return { p with pending := some (setting, none) }
  | _, some _ => .error .tooManyValues
  | .norc, none => do
    let p ← p.settle
    let draft ← p.draft.set .norc []
    return { p with draft }
  | .help, none => do
    let _ ← p.settle
    .error .displayHelp
  | .version, none => do
    let _ ← p.settle
    .error .displayVersion

/-- Takes up a positional argument. -/
def Progress.takePositional (p : Progress) (value : Text) : Except UsageError Progress := do
  if p.positional then throw .unknownArgument
  let p ← p.settle
  return { p with pending := some (.script, some value), positional := true }

/-- Takes up the long option `--body`. -/
def Progress.takeLong (p : Progress) (body : Text) : Except UsageError Progress :=
  let name := body.takeWhile (· != '=')
  let value := match body.dropWhile (· != '=') with
    | [] => none
    | _ :: value => some value
  match Flag.ofLong? name with
  | none => .error .unknownArgument
  | some flag => p.takeFlag flag value

/-- Takes up the short option `-name`, with `rest` in the same argument. Help and version end the
reading, so that only the value of an option can follow a short name. -/
def Progress.takeShort (p : Progress) (name : Char) (rest : Text) : Except UsageError Progress :=
  let value := match rest with
    | [] => none
    | '=' :: value => some value
    | value => some value
  match Flag.ofShort? name with
  | none => .error .unknownArgument
  | some (.valued setting) => p.takeFlag (.valued setting) value
  | some flag => p.takeFlag flag none

/-- Takes up one argument. -/
def Progress.take (p : Progress) (argument : Text) : Except UsageError Progress :=
  if p.trailing then p.takePositional argument
  else
    match argument with
    | ['-', '-'] => .ok { p with trailing := true }
    | '-' :: '-' :: body => p.takeLong body
    | '-' :: name :: rest => p.takeShort name rest
    | value =>
      match p.pending with
      | some (setting, none) => .ok { p with pending := some (setting, some value) }
      | _ => p.takePositional value

/-- The history size: the one given, else that of the environment, else the default. -/
def historySize (given : Option Nat) (env : Environment) : Except UsageError Nat :=
  match given, (declared .historySize).inherited env with
  | some size, _ => .ok size
  | none, some value => size? value
  | none, none => .ok (declared .historySize).absent

/-- Settings have been made that exclude each other. -/
def Draft.clash (d : Draft) : Bool :=
  settings.any fun setting => d.has setting && (declared setting).excludes.any d.has

/-- The configuration of a draft, once the history size is settled. -/
def Draft.config (d : Draft) (size : Nat) : Config := ⟨d.command, size, d.rcfile, d.norc, d.script⟩

/-- What the settings come to, once all of them are made. -/
def Draft.finish (d : Draft) (env : Environment) : Except UsageError Config := do
  let size ← Cli.historySize d.historySize env
  if d.clash then throw .argumentConflict
  return d.config size

/-- Reads the arguments of a run (the derived `Cli::parse`). -/
def parse (env : Environment) (arguments : List Text) : Except UsageError Config := do
  let p ← arguments.foldlM Progress.take Progress.start
  let p ← p.settle
  p.draft.finish env

end Cli

end LineShell
