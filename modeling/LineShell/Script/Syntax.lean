import LineShell.Text.Basic

/-!
# Scripts

Scripts are what `sh` runs: statements built from words. A word is a row of parts; what is not quoted in
it is split at blanks and may stand for names of files.
-/

namespace LineShell.Script

/-- What is done with the value of a parameter. -/
inductive Operation where
  | value
  /-- The number of its bytes. -/
  | length
  /-- Another word is taken where it is not set; with `orEmpty` also where it is empty. -/
  | useDefault (orEmpty : Bool)
  /-- As before, and the variable is set to the word. -/
  | setDefault (orEmpty : Bool)
  /-- Without a value the script ends, with the word as its complaint. -/
  | insist (orEmpty : Bool)
  /-- Another word is taken where it is set. -/
  | useAlternative (orEmpty : Bool)
  /-- What fits a pattern is cut off its beginning or its end. -/
  | cutStart (longest : Bool)
  | cutEnd (longest : Bool)
  /-- None of these; it is a fault once it is reached. -/
  | invalid
  deriving DecidableEq, Repr

/-- The text of a script, and the line that it starts on. -/
structure Source where
  line : Nat
  text : Bytes

/-- A part of a word. -/
inductive Part where
  | literal (bytes : Bytes) (quoted : Bool)
  /-- The value of a parameter; some operations have a word of their own. -/
  | parameter (name : Bytes) (operation : Operation) (word : List Part) (quoted : Bool)
  /-- What a script prints. -/
  | command (script : Source) (quoted : Bool)
  /-- The value of a calculation. -/
  | calculation (expression : List Part) (quoted : Bool)

/-- A word before it is expanded. -/
abbrev Word := List Part

/-- What a redirection does to its descriptor. -/
inductive Target where
  /-- Reads from a file. -/
  | input (path : Word)
  /-- Writes to a file, emptied first. -/
  | output (path : Word)
  /-- Writes to the end of a file. -/
  | append (path : Word)
  /-- Leads to where another descriptor leads, or is closed by a minus sign. -/
  | copy (source : Word)
  /-- Reads from a file, or writes over it; it is made if it is missing. -/
  | update (path : Word)
  /-- Reads a text that stands in the script. -/
  | text (content : Word)

/-- A redirection of one descriptor. -/
structure Redirection where
  descriptor : Nat
  target : Target

/-- A statement. -/
inductive Statement where
  /-- Settings of variables, the words of a command, and its redirections; `line` is where it
  stands. -/
  | simple (line : Nat) (settings : List (Bytes × Word)) (words : List Word)
      (redirections : List Redirection)
  /-- Stages side by side, each feeding the next. -/
  | pipeline (stages : List Statement)
  | negation (body : Statement)
  /-- Started, and not waited for. -/
  | background (body : Statement)
  | sequence (first second : Statement)
  | conjunction (first second : Statement)
  | disjunction (first second : Statement)
  | choice (test consequence alternative : Statement)
  /-- Repeats its body as long as the test comes out as `expected`. -/
  | loop (expected : Bool) (test body : Statement)
  /-- Repeats its body for each word, or for each argument where no words are given. -/
  | each (name : Bytes) (words : Option (List Word)) (body : Statement)
  /-- Carries out the first body of which a pattern fits the subject. -/
  | select (subject : Word) (arms : List (List Word × Statement))
  /-- Gives a name to a body, which is then a command. -/
  | define (name : Bytes) (body : Statement)
  /-- A group with redirections, run in a process of its own if `apart`. -/
  | group (line : Nat) (apart : Bool) (body : Statement) (redirections : List Redirection)
  | nothing

end LineShell.Script
