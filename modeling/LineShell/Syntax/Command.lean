import LineShell.Text.Pieces

/-!
# Commands

A command is a list of words: the program and its arguments, redirections among them. Reading one
keeps the first `Command.maxWords` words and silently drops the rest.
-/

namespace LineShell

/-- A command: the name of a program and its arguments. -/
structure Command where
  words : List Text
  deriving DecidableEq, Repr

namespace Command

/-- The number of words that a command keeps. -/
def maxWords : Nat := 64

/-- The command that a text spells, if it has a word at all (`Command::parse`). -/
def parse? (s : Text) : Option Command :=
  match (Text.collect maxWords (Text.words s)).1 with
  | [] => none
  | words => some ⟨words⟩

/-- The first word, which names the program. -/
def name? (c : Command) : Option Text :=
  c.words.head?

end Command

end LineShell
