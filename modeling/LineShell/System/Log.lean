import LineShell.Text.Blank
import LineShell.Utility.Regex

/-!
# Which messages the log shows

The log has one kind of message, a warning about input that could not be read. A filter tells which
messages are shown: a list of directives between commas, each a level, a target, or `target=level`, and
after a slash an expression that has to occur in the message.

* The last directive whose target begins the message's target decides, where those with longer targets
  come later; where none does, nothing is shown.
* A directive for the same target as an earlier one takes its place.
* A filter without any directive shows errors alone.
* What cannot be read is complained about and left out; a second slash spoils the whole filter.
-/

namespace LineShell.Log

/-- The levels, from nothing to everything. -/
def levels : List String := ["off", "error", "warn", "info", "debug", "trace"]

/-- The place of a level among the levels; letters count in either case. -/
def level? (word : Text) : Option Nat :=
  levels.findIdx? fun level => level.toList == word.map Char.toLower

/-- The place of warnings. -/
def warning : Nat := 2

/-- The target of the log's messages. -/
def target : Text := "vsh::input".toList

/-- One directive: a target, if it is not for all of them, and the last level shown. -/
structure Directive where
  target : Option Text
  level : Nat
  deriving DecidableEq, Repr

/-- The text that the targets of a directive begin with. -/
def Directive.start (d : Directive) : Text := d.target.getD []

/-- Reads one directive, or gives the part of it that cannot be read. -/
def Directive.ofText (s : Text) : Except Text Directive :=
  let everything := levels.length - 1
  match s.splitOnP (· == '=') with
  | [word] =>
    match level? word with
    | some level => .ok ⟨none, level⟩
    | none => .ok ⟨some word, everything⟩
  | [name, word] =>
    let word := Text.trim word
    if word.isEmpty then .ok ⟨some name, everything⟩
    else
      match level? word with
      | some level => .ok ⟨some name, level⟩
      | none => .error word
  | _ => .error s

/-- A filter that has been read. -/
structure Filter where
  directives : List Directive
  /-- What has to occur in a message. -/
  pattern : Option Text
  /-- What could not be read. -/
  faults : List Text

/-- The text about a part of a filter that cannot be read. -/
def faultText (part : Text) : Text :=
  "invalid logging spec '".toList ++ part ++ ['\'']

/-- A list of directives with one more. -/
def insert (directives : List Directive) (d : Directive) : List Directive :=
  if directives.any (·.target == d.target) then
    directives.map fun other => if other.target == d.target then d else other
  else directives ++ [d]

/-- Takes a directive into a filter. -/
def Filter.add (filter : Filter) (part : Text) : Filter :=
  match Directive.ofText part with
  | .ok d => { filter with directives := insert filter.directives d }
  | .error part => { filter with faults := filter.faults ++ [faultText part] }

/-- Reads a filter. -/
def Filter.ofText (s : Text) : Filter :=
  let read (list : Text) (pattern : Option Text) : Filter :=
    let parts := (list.splitOnP (· == ',')).map Text.trim
    (parts.filter (!·.isEmpty)).foldl Filter.add ⟨[], pattern, []⟩
  match s.splitOnP (· == '/') with
  | [] => read [] none
  | [list] => read list none
  | [list, pattern] => read list (some pattern)
  | _ => ⟨[], none, [faultText s ++ " (too many '/'s)".toList]⟩

/-- The filter where none is asked for. -/
def defaultFilter : Text := "warn".toList

/-- The filter that is asked for. -/
def filterOf (asked : Option Text) : Filter := Filter.ofText (asked.getD defaultFilter)

/-- What a pattern says occurs in a message; a pattern that cannot be read keeps nothing out. -/
def occurs (pattern message : Text) : Bool :=
  match Utility.Regex.ofBytes ⟨true, false⟩ (Utf8.encode pattern) with
  | .ok r => r.occursIn (Utf8.encode message).toArray
  | .error _ => true

/-- A warning is shown under a filter. -/
def Filter.shows (filter : Filter) (message : Text) : Bool :=
  let sorted := filter.directives.mergeSort fun a b => a.start.length ≤ b.start.length
  let fitting := sorted.filter fun d => d.start.isPrefixOf target
  fitting.getLast?.any (warning ≤ ·.level) && filter.pattern.all fun pattern => occurs pattern message

/-- The line that shows a warning. -/
def warningLine (message : Text) : Text :=
  "[WARN  ".toList ++ target ++ "] ".toList ++ message ++ ['\n']

/-- The lines about what could not be read of a filter. -/
def Filter.complaints (filter : Filter) : Text :=
  filter.faults.flatMap fun fault => "warning: ".toList ++ fault ++ ", ignoring it\n".toList

end LineShell.Log
