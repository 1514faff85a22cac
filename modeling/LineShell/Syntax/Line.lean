import LineShell.Syntax.Command

/-!
# Lines

A line is either a **pipeline**, when it holds a `|` anywhere, or a **sequence** of segments between
semicolons. A segment without `&&` is one command; otherwise it is **conditional**: the command before
the leftmost `&&`, if any, and what follows it, read as a sequence again.

* `|` is the strongest operator to look for and excludes the others: in a pipeline, `;` and `&&` are
  parts of words. At most `Line.maxStages` pieces between bars are looked at, blank ones included.
* Empty segments and blank stages are dropped; where nothing is left, nothing is to be run.
-/

namespace LineShell

/-- One element of a sequence. -/
inductive Segment where
  /-- A command alone. -/
  | simple (command : Command)
  /-- `left && rest`: the rest is run only after the left side succeeded, and without a left side
  nothing is. -/
  | conditional (left : Option Command) (rest : Option (List Segment))

/-- What one line asks for. -/
inductive Line where
  /-- The stages of a pipeline, each feeding the next. -/
  | pipeline (stages : List Command)
  /-- Segments to be run one after another. -/
  | sequence (segments : List Segment)

namespace Segment

mutual

/-- The segments of a text between semicolons, if there is any (`parse_sequence`; its limit on them is
above every length). -/
def parseAll? (s : Text) : Option (List Segment) :=
  match (Text.piecesAt ';' s).attach.filterMap fun piece => parse? piece.1 with
  | [] => none
  | segments => some segments
termination_by (s.length, 1)
decreasing_by
  have := Text.length_le_of_mem_pieces piece.2
  rcases Nat.lt_or_eq_of_le this with h | h
  · exact Prod.Lex.left _ _ h
  · rw [h]
    exact Prod.Lex.right _ (by omega)

/-- The segment that a text without semicolons spells, if there is one (`parse_segment`). -/
def parse? (s : Text) : Option Segment :=
  match _cut : Text.cutAtAnd s with
  | some (left, right) => some (.conditional (Command.parse? left) (parseAll? right))
  | none => (Command.parse? s).map .simple
termination_by (s.length, 0)
decreasing_by
  have := Text.cutAtAnd_length _cut
  exact Prod.Lex.left _ _ (by omega)

end

end Segment

namespace Line

/-- The number of pieces between bars that a pipeline looks at. -/
def maxStages : Nat := 16

/-- What a line asks for, if it asks for anything (`parse` of the parser). -/
def parse? (s : Text) : Option Line :=
  if '|' ∈ s then
    match (Text.collect maxStages (Text.piecesAt '|' s)).1.filterMap Command.parse? with
    | [] => none
    | stages => some (.pipeline stages)
  else
    (Segment.parseAll? s).map .sequence

end Line

end LineShell
