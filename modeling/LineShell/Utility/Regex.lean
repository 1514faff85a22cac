import LineShell.Utility.Translate

/-!
# Regular expressions

An expression stands for the stretches of a line that it fits. `Regex.ends` says where the stretches
that begin at given places end; so an expression occurs in a line if that is anywhere at all, and the
longest stretch from a place ends at the greatest end.

Two spellings are read. In the basic one the operators `( ) { } | + ?` are written with a backslash, in
the extended one without; `*`, `.`, brackets, `^` and `$` are the same in both.
-/

namespace LineShell.Utility

/-- A regular expression. -/
inductive Regex where
  /-- The empty stretch. -/
  | empty
  /-- One byte of some kind. -/
  | byte (accepts : UInt8 → Bool)
  | lineStart
  | lineEnd
  /-- A place between a word byte and another one; `opens` tells which of the two comes first, if that
  matters. -/
  | wordEdge (opens : Option Bool)
  | append (first second : Regex)
  | either (first second : Regex)
  /-- Any number of times. -/
  | star (body : Regex)

namespace Regex

/-- An expression so many times in a row. -/
def times (body : Regex) : Nat → Regex
  | 0 => .empty
  | n + 1 => .append body (body.times n)

/-- An expression at most so many times in a row. -/
def atMost (body : Regex) : Nat → Regex
  | 0 => .empty
  | n + 1 => .either .empty (.append body (body.atMost n))

/-- A byte of a word. -/
def isWordByte (b : UInt8) : Bool :=
  48 ≤ b && b ≤ 57 || 65 ≤ b && b ≤ 90 || 97 ≤ b && b ≤ 122 || b = 95

/-- Adds places to those known, and tells which are new. -/
def addPlaces (known fresh : List Nat) : List Nat × List Nat :=
  let added := (fresh.filter (!known.contains ·)).eraseDups
  (known ++ added, added)

/-- The places that are reached from some by any number of steps; `rounds` bounds their number. -/
def closure (step : List Nat → List Nat) : Nat → List Nat → List Nat → List Nat
  | 0, known, _ => known
  | _, known, [] => known
  | rounds + 1, known, fresh =>
    let (known, added) := addPlaces known (step fresh)
    closure step rounds known added

/-- Where the stretches end that begin at given places. -/
def ends (bytes : Array UInt8) : Regex → List Nat → List Nat
  | .empty, places => places
  | .byte accepts, places =>
    places.filterMap fun i => (bytes[i]?).bind fun b => if accepts b then some (i + 1) else none
  | .lineStart, places => places.filter (· = 0)
  | .lineEnd, places => places.filter (· = bytes.size)
  | .wordEdge opens, places =>
    places.filter fun i =>
      let before := 0 < i && (bytes[i - 1]?).any isWordByte
      let after := (bytes[i]?).any isWordByte
      match opens with
      | none => before != after
      | some true => !before && after
      | some false => before && !after
  | .append first second, places => second.ends bytes (first.ends bytes places)
  | .either first second, places => (addPlaces (first.ends bytes places) (second.ends bytes places)).1
  | .star body, places => closure (body.ends bytes) (bytes.size + 1) places.eraseDups places

/-- The expression occurs in a line. -/
def occursIn (r : Regex) (line : Array UInt8) : Bool :=
  !(r.ends line (List.range (line.size + 1))).isEmpty

/-- The expression fits a whole line. -/
def fits (r : Regex) (line : Array UInt8) : Bool :=
  (r.ends line [0]).contains line.size

/-- The stretch is not part of a greater word. -/
def isWord (bytes : Array UInt8) (first last : Nat) : Bool :=
  !(0 < first && (bytes[first - 1]?).any isWordByte) && !(bytes[last]?).any isWordByte

/-- The expression fits a stretch that is not part of a greater word. -/
def occursAsWord (r : Regex) (line : Array UInt8) : Bool :=
  (List.range (line.size + 1)).any fun i => (r.ends line [i]).any fun j => isWord line i j

/-! ## Reading -/

/-- How an expression is written. -/
structure Spelling where
  extended : Bool
  ignoreCase : Bool

/-- The byte that stands for both cases of a letter. -/
def foldByte (b : UInt8) : UInt8 := if 65 ≤ b && b ≤ 90 then b + 32 else b

/-- Exactly one byte, or either case of it. -/
def literal (s : Spelling) (b : UInt8) : Regex :=
  .byte fun c => if s.ignoreCase then foldByte c = foldByte b else c = b

/-- A reader of the rest of an expression. -/
abbrev Reader := StateT Bytes (Except String)

/-- Passes some bytes if they come next. -/
def accept (bytes : Bytes) : Reader Bool := do
  if bytes.isPrefixOf (← get) then
    modify fun rest => rest.drop bytes.length
    return true
  else return false

/-- How an operator is written. -/
def operator (s : Spelling) (b : Char) : Bytes :=
  if s.extended then [b.toNat.toUInt8] else [92, b.toNat.toUInt8]

/-- The next bytes are an operator, or the end. -/
def atEnd (s : Spelling) : Reader Bool := do
  let rest ← get
  return rest.isEmpty || (operator s '|').isPrefixOf rest || (operator s ')').isPrefixOf rest

/-- Reads the members of a bracketed set. -/
def members : Nat → Bytes → Reader Bytes
  | 0, _ => throw "Unmatched [, [^, [:, [., or [="
  | fuel + 1, found => do
    match ← get with
    | [] => throw "Unmatched [, [^, [:, [., or [="
    | 93 :: rest =>
      set rest
      return found
    | 91 :: 58 :: rest =>
      let name := rest.takeWhile (· != 58)
      match byteClass? name, rest.drop name.length with
      | some more, 58 :: 93 :: rest =>
        set rest
        members fuel (found ++ more)
      | _, _ => throw "Invalid character class name"
    | low :: 45 :: high :: rest =>
      if high = 93 then
        set (45 :: high :: rest)
        members fuel (found ++ [low])
      else
        set rest
        members fuel (found ++ byteRange low high)
    | b :: rest =>
      set rest
      members fuel (found ++ [b])

/-- Reads a bracketed set after its bracket. -/
def bracket (s : Spelling) : Reader Regex := do
  let negated ← accept [94]
  let first : Bytes := if ← accept [93] then [93] else []
  let found ← members ((← get).length + 1) first
  let has := memberTable (if s.ignoreCase then found.map foldByte else found)
  return .byte fun b => has (if s.ignoreCase then foldByte b else b) != negated

/-- Reads a number. -/
def count : Reader (Option Nat) := do
  let digits := (← get).takeWhile fun b => 48 ≤ b && b ≤ 57
  modify fun rest => rest.drop digits.length
  return number? digits

/-- Reads the repetitions after an atom. -/
def repeats (s : Spelling) : Nat → Regex → Reader Regex
  | 0, body => return body
  | fuel + 1, body => do
    if ← accept [42] then repeats s fuel (.star body)
    else if ← accept (operator s '+') then repeats s fuel (.append body (.star body))
    else if ← accept (operator s '?') then repeats s fuel (.either .empty body)
    else if ← accept (operator s '\x7b') then
      let least ← count
      let repeated ← if ← accept [44] then do
          match ← count with
          | some most => pure (Regex.append (body.times (least.getD 0)) (body.atMost (most - least.getD 0)))
          | none => pure (Regex.append (body.times (least.getD 0)) (.star body))
        else pure (body.times (least.getD 0))
      if ← accept (operator s '\x7d') then repeats s fuel repeated
      else throw "Unmatched \x7b or \\\x7b"
    else return body

mutual

/-- Reads alternatives. -/
def alternatives (s : Spelling) : Nat → Reader Regex
  | 0 => throw "Regular expression too big"
  | fuel + 1 => do
    let first ← row s fuel true .empty
    if ← accept (operator s '|') then return .either first (← alternatives s fuel)
    else return first

/-- Reads a row of repeated atoms; `atStart` tells that nothing but an anchor has come. -/
def row (s : Spelling) : Nat → Bool → Regex → Reader Regex
  | 0, _, _ => throw "Regular expression too big"
  | fuel + 1, atStart, before => do
    if ← atEnd s then return before
    match ← get with
    | 94 :: rest =>
      if atStart || s.extended then
        set rest
        row s fuel true (.append before .lineStart)
      else
        set rest
        row s fuel false (.append before (← repeats s fuel (literal s 94)))
    | 42 :: rest =>
      if atStart then
        set rest
        row s fuel false (.append before (← repeats s fuel (literal s 42)))
      else throw "Invalid preceding regular expression"
    | 36 :: rest =>
      set rest
      if s.extended || (← atEnd s) then row s fuel false (.append before .lineEnd)
      else row s fuel false (.append before (← repeats s fuel (literal s 36)))
    | _ =>
      let body ← atom s fuel
      row s fuel false (.append before (← repeats s fuel body))

/-- Reads an atom. -/
def atom (s : Spelling) : Nat → Reader Regex
  | 0 => throw "Regular expression too big"
  | fuel + 1 => do
    if ← accept (operator s '(') then
      let body ← alternatives s fuel
      if ← accept (operator s ')') then return body else throw "Unmatched ( or \\("
    else
      match ← get with
      | [] => return .empty
      | 46 :: rest =>
        set rest
        return .byte fun _ => true
      | 91 :: rest =>
        set rest
        bracket s
      | [92] => throw "Trailing backslash"
      | 92 :: b :: rest =>
        set rest
        match Char.ofNat b.toNat with
        | 'w' => return .byte isWordByte
        | 'W' => return .byte (!isWordByte ·)
        | 's' => return .byte isSpace
        | 'S' => return .byte (!isSpace ·)
        | 'b' => return .wordEdge none
        | '<' => return .wordEdge (some true)
        | '>' => return .wordEdge (some false)
        | _ => return literal s b
      | b :: rest =>
        set rest
        return literal s b

end

/-- Reads an expression. -/
def ofBytes (s : Spelling) (bytes : Bytes) : Except String Regex :=
  match (alternatives s (4 * bytes.length + 8)).run bytes with
  | .ok (r, []) => .ok r
  | .ok _ => .error "Unmatched ) or \\)"
  | .error fault => .error fault

/-- The expression that only some bytes fit. -/
def ofText (s : Spelling) (bytes : Bytes) : Regex :=
  bytes.foldr (fun b rest => .append (literal s b) rest) .empty

end Regex

end LineShell.Utility
