import LineShell.Script.Token
import LineShell.Utility.Basic

/-!
# Patterns

A pattern fits texts byte by byte: `?` fits any byte, `*` any run of bytes, and brackets one byte out of
a set, or one that is not in it after `!`. What is quoted stands for itself. `namesFitting` gives the
paths of a file tree that a pattern fits, where neither `*` nor the others fit a slash, or a dot at the
beginning of a name.
-/

namespace LineShell.Script

/-- A byte of an expanded word. -/
structure Glyph where
  byte : UInt8
  quoted : Bool
  deriving DecidableEq, Repr

/-- The bytes of glyphs. -/
def bytesOf (glyphs : List Glyph) : Bytes := glyphs.map Glyph.byte

/-- A part of a pattern. -/
inductive PatternItem where
  | byte (b : UInt8)
  | any
  | anyRun
  /-- One byte in one of these ranges, or in none of them. -/
  | set (negated : Bool) (ranges : List (UInt8 × UInt8))
  deriving DecidableEq, Repr

/-- The bytes of a class such as `[:digit:]`. -/
def classRanges (name : Bytes) : List (UInt8 × UInt8) :=
  let lower : UInt8 × UInt8 := (97, 122)
  let upper : UInt8 × UInt8 := (65, 90)
  let digit : UInt8 × UInt8 := (48, 57)
  if name = ascii "alpha" then [lower, upper]
  else if name = ascii "digit" then [digit]
  else if name = ascii "alnum" then [lower, upper, digit]
  else if name = ascii "lower" then [lower]
  else if name = ascii "upper" then [upper]
  else if name = ascii "space" then [(9, 13), (32, 32)]
  else if name = ascii "blank" then [(9, 9), (32, 32)]
  else if name = ascii "punct" then [(33, 47), (58, 64), (91, 96), (123, 126)]
  else if name = ascii "xdigit" then [digit, (65, 70), (97, 102)]
  else if name = ascii "print" then [(32, 126)]
  else if name = ascii "graph" then [(33, 126)]
  else if name = ascii "cntrl" then [(0, 31), (127, 127)]
  else []

/-- The ranges of a set, up to its closing bracket, and what follows; a bracket in front stands for
itself. -/
def setRanges : Nat → Bool → List (UInt8 × UInt8) → List Glyph →
    Option (List (UInt8 × UInt8) × List Glyph)
  | 0, _, _, _ => none
  | _, _, _, [] => none
  | fuel + 1, first, ranges, g :: rest =>
    if g.byte == 93 && !g.quoted && !first then some (ranges, rest)
    else
      match g.byte == 91, rest with
      | true, ⟨58, false⟩ :: more =>
        let name := more.takeWhile (·.byte != 58)
        match more.drop name.length with
        | ⟨58, _⟩ :: ⟨93, _⟩ :: rest =>
          setRanges fuel false (ranges ++ classRanges (bytesOf name)) rest
        | _ => setRanges fuel false (ranges ++ [(g.byte, g.byte)]) rest
      | _, ⟨45, false⟩ :: last :: more =>
        if last.byte == 93 && !last.quoted then
          setRanges fuel false (ranges ++ [(g.byte, g.byte)]) rest
        else setRanges fuel false (ranges ++ [(g.byte, last.byte)]) more
      | _, _ => setRanges fuel false (ranges ++ [(g.byte, g.byte)]) rest

/-- The pattern that glyphs spell; a bracket that is not closed stands for itself. -/
def patternOf : Nat → List Glyph → List PatternItem
  | 0, _ => []
  | _, [] => []
  | fuel + 1, g :: rest =>
    if g.quoted then .byte g.byte :: patternOf fuel rest
    else
      match Char.ofNat g.byte.toNat with
      | '?' => .any :: patternOf fuel rest
      | '*' => .anyRun :: patternOf fuel rest
      | '\\' =>
        match rest with
        | next :: rest => .byte next.byte :: patternOf fuel rest
        | [] => [.byte g.byte]
      | '[' =>
        let (negated, inside) := match rest with
          | ⟨33, false⟩ :: inside => (true, inside)
          | ⟨94, false⟩ :: inside => (true, inside)
          | inside => (false, inside)
        match setRanges (inside.length + 1) true [] inside with
        | some (ranges, rest) => .set negated ranges :: patternOf fuel rest
        | none => .byte g.byte :: patternOf fuel rest
      | _ => .byte g.byte :: patternOf fuel rest

/-- The pattern of an expanded word. -/
def pattern (glyphs : List Glyph) : List PatternItem :=
  patternOf (glyphs.length + 1) glyphs

/-- A pattern fits a whole text. -/
def fits : List PatternItem → Bytes → Bool
  | [], text => text.isEmpty
  | .byte b :: rest, c :: text => b == c && fits rest text
  | .any :: rest, _ :: text => fits rest text
  | .set negated ranges :: rest, c :: text =>
    (ranges.any (fun range => range.1 ≤ c && c ≤ range.2) != negated) && fits rest text
  | .anyRun :: rest, [] => fits rest []
  | .anyRun :: rest, c :: text => fits rest (c :: text) || fits (.anyRun :: rest) text
  | _, [] => false
termination_by items text => (items.length + text.length)

/-! ## Cutting -/

/-- A text without the shortest or longest beginning that a pattern fits. -/
def cutStart (longest : Bool) (items : List PatternItem) (text : Bytes) : Bytes :=
  let lengths := List.range (text.length + 1)
  match (if longest then lengths.reverse else lengths).find? fun n => fits items (text.take n) with
  | some n => text.drop n
  | none => text

/-- A text without the shortest or longest end that a pattern fits. -/
def cutEnd (longest : Bool) (items : List PatternItem) (text : Bytes) : Bytes :=
  let lengths := List.range (text.length + 1)
  match (if longest then lengths else lengths.reverse).find? fun n => fits items (text.drop n) with
  | some n => text.take n
  | none => text

/-! ## Names of files -/

/-- Glyphs hold something that fits more than itself. -/
def isPattern (glyphs : List Glyph) : Bool :=
  (pattern glyphs).any fun item => !(item matches .byte _)

/-- The names of a directory that a pattern fits, in order. -/
def entriesFitting (files : FileTree) (directory : Bytes) (glyphs : List Glyph) : List Bytes :=
  let entries := match files.lookup (if directory.isEmpty then FileTree.dot else directory) with
    | .ok id =>
      match files.get? id with
      | some (.directory _ _ entries) =>
        if files.allows id .read then FileTree.dot :: FileTree.dotDot :: entries.map Prod.fst else []
      | _ => []
    | .error _ => []
  let items := pattern glyphs
  let mayHide := items.head? = some (.byte 46)
  let fitting := entries.filter fun name => (mayHide || name.head? != some 46) && fits items name
  fitting.mergeSort fun a b => a ≤ b

/-- The paths that go on from `directories` by the names that each of the patterns fits. -/
def pathsFitting (files : FileTree) : List (List Glyph) → List Bytes → List Bytes
  | [], paths => paths
  | names :: rest, paths =>
    let separator : Bytes := if rest.isEmpty then [] else [FileTree.slash]
    let next := paths.flatMap fun path =>
      if names.isEmpty then [path ++ separator]
      else if isPattern names then
        (entriesFitting files path names).map fun name => path ++ name ++ separator
      else [path ++ bytesOf names ++ separator]
    pathsFitting files rest (next.filter fun path => path.isEmpty || (files.lookup path).toOption.isSome)

/-- The paths that a pattern fits, in order. -/
def namesFitting (files : FileTree) (glyphs : List Glyph) : List Bytes :=
  pathsFitting files (glyphs.splitOnP fun g => g.byte == FileTree.slash) [[]]

end LineShell.Script
