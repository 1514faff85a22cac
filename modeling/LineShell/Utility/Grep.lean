import LineShell.Utility.Regex

/-!
# Searching lines

`grep` writes the lines in which one of its patterns occurs, as it reads. Where only the answer matters
(`-q`, or output that nobody sees), it stops at the first such line. A file with a NUL byte is binary:
none of its lines is shown.
-/

namespace LineShell.Utility

/-- What is shown of the lines selected. -/
inductive Shown where
  | lines
  /-- Each stretch that a pattern fits. -/
  | stretches
  | count
  /-- The names of files with lines selected, or of those without. -/
  | names (selected : Bool)
  | nothing
  deriving DecidableEq

/-- A search. -/
structure Search where
  patterns : List Regex
  inverted : Bool
  wholeLine : Bool
  wholeWord : Bool
  shown : Shown
  numbered : Bool
  labelled : Bool
  silent : Bool
  /-- How many lines are selected at most in each file. -/
  most : Option Nat

namespace Search

/-- A line is selected. -/
def selects (s : Search) (line : Bytes) : Bool :=
  let line := line.toArray
  (s.patterns.any fun r =>
    if s.wholeLine then r.fits line
    else if s.wholeWord then r.occursAsWord line
    else r.occursIn line) != s.inverted

/-- The longest stretches of a line that patterns fit, from left to right; `left` bounds their number. -/
def stretches (s : Search) (line : Array UInt8) : Nat → Nat → List Bytes
  | 0, _ => []
  | left + 1, place =>
    if line.size < place then []
    else
      let longest := s.patterns.filterMap fun r =>
        let ends := if s.wholeWord then (r.ends line [place]).filter (Regex.isWord line place)
          else r.ends line [place]
        ends.max?
      match longest.max? with
      | some last =>
        if place < last then (line.extract place last).toList :: s.stretches line left last
        else s.stretches line left (place + 1)
      | none => s.stretches line left (place + 1)

/-- What is shown of a selected line; the label and the number are in front. -/
def row (s : Search) (label : Bytes) (number : Nat) (line : Bytes) : Bytes :=
  let head := label ++ (if s.numbered then decimal number ++ [58] else [])
  match s.shown with
  | .lines => head ++ line ++ [10]
  | .stretches =>
    if s.inverted then []
    else (s.stretches line.toArray (line.length + 1) 0).flatMap fun part => head ++ part ++ [10]
  | _ => []

/-- The search of one file so far. -/
structure Progress where
  /-- The number of lines read, and of those selected. -/
  read : Nat
  selected : Nat
  binary : Bool

/-- No more lines of a file need be looked at. -/
def enough (s : Search) (progress : Progress) : Bool :=
  s.most.any (· ≤ progress.selected) ||
    0 < progress.selected && (progress.binary || s.shown matches .nothing | .names _)

/-- Goes on with some lines of a file: the rows to be shown, last one first. -/
def step (s : Search) (label : Bytes) : List Bytes → List Bytes × Progress → List Bytes × Progress
  | [], state => state
  | line :: rest, (rows, progress) =>
    if s.enough progress then (rows, progress)
    else
      let number := progress.read + 1
      let progress := { progress with read := number }
      if s.selects line then
        let rows := if progress.binary then rows else s.row label number line :: rows
        s.step label rest (rows, { progress with selected := progress.selected + 1 })
      else s.step label rest (rows, progress)

/-- Prints, or gives up. -/
def put (bytes : Bytes) : Run Unit := Run.printOr "grep" Run.writeFault 2 bytes

/-- Searches a descriptor. -/
def file (s : Search) (name : Bytes) (fd : Nat) : Run (Except Errno Nat) := do
  let label := if s.labelled then name ++ [58] else []
  let result ← Run.lines fd (fun (progress : Progress) lines => do
    let binary := progress.binary || lines.any (·.contains 0)
    let (rows, progress) := s.step label lines ([], { progress with binary })
    put rows.reverse.flatten
    return (!s.enough progress, progress)) ⟨0, 0, false⟩
  match result with
  | .error e => return .error e
  | .ok progress =>
    match s.shown with
    | .count => put (label ++ decimal progress.selected ++ [10])
    | .names selected => if (0 < progress.selected) = selected then put (name ++ [10])
    | .lines | .stretches =>
      if progress.binary && 0 < progress.selected then
        Run.warn "grep" (name ++ ascii ": binary file matches")
    | .nothing => pure ()
    return .ok progress.selected

end Search

/-- Nobody sees what goes to standard output. -/
def outputVanishes : Run Bool := do
  match ← nodeOf 1 with
  | some (id, _, _) =>
    match (← Run.files).get? id with
    | some (.device .null) => return true
    | _ => return false
  | none => return false

/-- A descriptor leads to the file that output goes to. -/
def readsOutput (fd : Nat) : Run Bool := do
  match ← nodeOf fd, ← nodeOf 1 with
  | some (id, _, _), some (out, _, _) =>
    match (← Run.files).get? id with
    | some (.file ..) => return id = out
    | _ => return false
  | _, _ => return false

/-- Carries a search out on operands: its exit code. -/
def Search.run (s : Search) (operands : List Bytes) : Run Nat := do
  let shownName (path : Bytes) : Bytes :=
    if path = Run.standardInput then ascii "(standard input)" else path
  let complain (path : Bytes) (message : Bytes) : Run Unit :=
    if s.silent then pure () else Run.warn "grep" (shownName path ++ ascii ": " ++ message)
  let (found, faulty) ← (Run.operandsOr operands).foldlM (fun (found, faulty) path => do
    if found && s.shown = .nothing then return (found, faulty)
    match ← Run.openOperand path with
    | .error e =>
      complain path (errorText e)
      return (found, true)
    | .ok fd =>
      if (s.shown matches .lines | .stretches) && (← readsOutput fd) then
        Run.closeOperand path fd
        complain path (ascii "input file is also the output")
        return (found, true)
      let result ← s.file (shownName path) fd
      Run.closeOperand path fd
      match result with
      | .error e =>
        complain path (errorText e)
        return (found, true)
      | .ok selected =>
        let hit := if s.shown = .names false then selected = 0 else 0 < selected
        return (found || hit, faulty)) (false, false)
  Run.finish "grep" 2 (if faulty && !(found && s.shown = .nothing) then 2 else if found then 0 else 1)

/-- Writes the lines of its operands in which a pattern occurs. -/
def grep : Utility := fun arguments => do
  let usageFault : Run Nat := do
    Run.complain (ascii "Usage: grep [OPTION]... PATTERNS [FILE]...")
    Run.complain (ascii "Try 'grep --help' for more information.")
    return 2
  match optionFault? "EFGHLachilnoqsvwxyz" "em" arguments with
  | some fault =>
    Run.warn "grep" fault
    usageFault
  | none =>
    let (options, operands) := splitValuedOptions (ascii "em") arguments
    let has (letter : Char) : Bool := options.any (·.1 = letter.toNat.toUInt8)
    let given := (options.filter (·.1 = 101)).map Prod.snd
    match given, operands with
    | [], [] => usageFault
    | given, operands =>
      let (texts, paths) := if given.isEmpty then (operands.take 1, operands.drop 1) else (given, operands)
      let spelling : Regex.Spelling := ⟨has 'E', has 'i' || has 'y'⟩
      let lines := texts.flatMap fun text => text.splitOnP (· == 10)
      let patterns := lines.mapM fun line =>
        if has 'F' then .ok (Regex.ofText spelling line) else Regex.ofBytes spelling line
      match patterns with
      | .error fault => Run.fail "grep" (ascii fault) 2
      | .ok patterns =>
        let quiet := has 'q' || (← outputVanishes)
        let shown : Shown :=
          if quiet then .nothing
          else if has 'L' then .names false
          else if has 'l' then .names true
          else if has 'c' then .count
          else if has 'o' then .stretches
          else .lines
        let search : Search :=
          { patterns, shown
            inverted := has 'v'
            wholeLine := has 'x'
            wholeWord := has 'w'
            numbered := has 'n'
            labelled := has 'H' || 1 < paths.length && !has 'h'
            silent := has 's'
            most := (options.lookup 109).bind number? }
        if search.most = some 0 then return 1
        search.run paths

end LineShell.Utility
