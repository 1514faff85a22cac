import LineShell.Script.Arithmetic
import LineShell.Script.Pattern
import LineShell.Script.State

/-!
# What words stand for

A word is first expanded to a row of atoms: bytes, each quoted or not, with marks where something quoted
stands, and cuts between arguments. `expand` makes fields of them: values that are not quoted are split
at separators, a word of which nothing is left makes no field, and a field that is a pattern stands for
the files that it fits, if there are any. `expandWhole` takes the bytes as they are.

What a script prints has to be found out by running it; that is given as an argument.
-/

namespace LineShell.Script

/-- A step of an expanded word. -/
inductive Atom where
  /-- A byte; it may be a separator if it comes from a value. -/
  | glyph (glyph : Glyph) (splits : Bool)
  /-- A field ends, if one has begun. -/
  | cut
  /-- A field begins, even if nothing else is in it. -/
  | mark

/-- The atoms of bytes. -/
def atomsOf (isQuoted splits : Bool) (bytes : Bytes) : List Atom :=
  bytes.map fun b => .glyph ⟨b, isQuoted⟩ splits

/-- The atoms of arguments, which are fields of their own. -/
def argumentAtoms (isQuoted : Bool) (arguments : List Bytes) : List Atom :=
  let each := arguments.map fun bytes =>
    (if isQuoted then [Atom.mark] else []) ++ atomsOf isQuoted (!isQuoted) bytes
  (each.intersperse [.cut]).flatten

/-- The glyphs of atoms, with a blank for each cut. -/
def glyphsOf (atoms : List Atom) : List Glyph :=
  atoms.filterMap fun
    | .glyph g _ => some g
    | .cut => some ⟨32, true⟩
    | .mark => none

/-! ## Fields -/

/-- Fields on their way: the complete ones and the one that has begun, both last one first, and whether
blanks ended the last one, so that another separator may follow. -/
structure Fields where
  complete : List (List Glyph)
  current : Option (List Glyph)
  blank : Bool

namespace Fields

/-- Ends the field that has begun. -/
def cut (f : Fields) (blank : Bool) : Fields :=
  match f.current with
  | some field => ⟨field.reverse :: f.complete, none, blank⟩
  | none => f

/-- Takes an atom. -/
def add (separators : Bytes) (f : Fields) : Atom → Fields
  | .mark => { f with current := some (f.current.getD []), blank := false }
  | .cut => f.cut false
  | .glyph g splits =>
    if splits && separators.contains g.byte then
      if Sh.usualSeparators.contains g.byte then f.cut true
      else if f.current.isSome then f.cut false
      else if f.blank then { f with blank := false }
      else { f with complete := [] :: f.complete }
    else { f with current := some (g :: f.current.getD []), blank := false }

end Fields

/-- The fields of atoms. -/
def fieldsOf (separators : Bytes) (atoms : List Atom) : List (List Glyph) :=
  ((atoms.foldl (Fields.add separators) ⟨[], none, false⟩).cut false).complete.reverse

/-! ## Parts of words -/

/-- The bytes that a script prints, as a value: without NULs, and without line ends after them. -/
def printedValue (bytes : Bytes) : Bytes :=
  ((bytes.filter (· != 0)).reverse.dropWhile (· == 10)).reverse

/-- The value of a parameter, which a strict script insists on. -/
def insistedValue (name : Bytes) : Sh Bytes := do
  match ← Sh.parameter? name with
  | some value => return value
  | none =>
    let free := [ascii "@", ascii "*", ascii "!"]
    if (← get).options.strict && !free.contains name then
      Sh.stop (name ++ ascii ": parameter not set")
    else return []

/-- The value of a calculation. -/
def calculated (expression : Bytes) : Sh Bytes := do
  let bindings := (← get).bindings
  let lookup (name : Bytes) : Option Bytes := (bindings.lookup name).bind Variable.value
  match calculate lookup expression with
  | .error fault => Sh.stop (fault.message expression)
  | .ok (value, settings) =>
    settings.reverse.forM fun (name, value) => Sh.assign name (decimal value) false
    return decimal value

/-- The atoms of a word. `inner` tells that the word stands within the value of a parameter, so that its
own bytes may be separators; `fuel` bounds how deep words stand in words. -/
def atoms (substitute : Source → Sh Bytes) : Nat → Bool → Word → Sh (List Atom)
  | 0, _, _ => return []
  | _, _, [] => return []
  | fuel + 1, inner, part :: rest => do
    let first ← match part with
      | .literal bytes isQuoted =>
        pure ((if isQuoted then [Atom.mark] else []) ++ atomsOf isQuoted (inner && !isQuoted) bytes)
      | .command script isQuoted => do
        let value := printedValue (← substitute script)
        pure (atomsOf isQuoted (!isQuoted) value)
      | .calculation expression isQuoted => do
        let text ← atoms substitute fuel false expression
        let value ← calculated (bytesOf (glyphsOf text))
        pure (atomsOf isQuoted (!isQuoted) value)
      | .parameter name operation word isQuoted => do
        let value ← Sh.parameter? name
        let isThere (orEmpty : Bool) : Bool := value.any fun v => !(orEmpty && v.isEmpty)
        let same : Sh (List Atom) := do
          if name = ascii "@" || name = ascii "*" && !isQuoted then
            return argumentAtoms isQuoted (← get).arguments
          else return atomsOf isQuoted (!isQuoted) (value.getD [])
        let other : Sh (List Atom) := atoms substitute fuel true word
        let cutting (cut : List PatternItem → Bytes → Bytes) : Sh (List Atom) := do
          let value ← insistedValue name
          let items := pattern (glyphsOf (← other))
          return atomsOf isQuoted (!isQuoted) (cut items value)
        match operation with
        | .value =>
          let _ ← insistedValue name
          same
        | .length =>
          let value ← insistedValue name
          pure (atomsOf isQuoted (!isQuoted) (decimal value.length))
        | .useDefault orEmpty => if isThere orEmpty then same else other
        | .useAlternative orEmpty => if isThere orEmpty then other else pure []
        | .setDefault orEmpty =>
          if isThere orEmpty then same
          else
            let value := bytesOf (glyphsOf (← other))
            Sh.assign name value false
            pure (atomsOf isQuoted (!isQuoted) value)
        | .insist orEmpty =>
          if isThere orEmpty then same
          else
            let text := bytesOf (glyphsOf (← other))
            let usual := ascii "parameter not set" ++ if orEmpty then ascii " or null" else []
            Sh.stop (name ++ ascii ": " ++ if text.isEmpty then usual else text)
        | .cutStart longest => cutting (cutStart longest)
        | .cutEnd longest => cutting (cutEnd longest)
        | .invalid => Sh.stop (ascii "Bad substitution")
    return first ++ (← atoms substitute fuel inner rest)

/-- A tilde at the beginning of a word stands for the home directory, if there is one. -/
def homeward (word : Word) : Sh Word := do
  match word with
  | .literal (126 :: rest) false :: more =>
    if rest.head?.all (· == FileTree.slash) && (rest.head?.isSome || more.isEmpty) then
      match ← Sh.lookup? (ascii "HOME") with
      | some home => return .literal home true :: .literal rest false :: more
      | none => return word
    else return word
  | _ => return word

/-- How deep words stand in words, at most, and how many parts they have. -/
def wordBound : Nat := 100000

/-- The atoms of a whole word. -/
def wordAtoms (substitute : Source → Sh Bytes) (word : Word) : Sh (List Atom) := do
  atoms substitute wordBound false (← homeward word)

/-- A word is nothing but the arguments in quotes. -/
def isArguments (word : Word) : Bool :=
  word.all (fun
    | .literal bytes _ => bytes.isEmpty
    | .parameter name .value _ isQuoted => isQuoted && name = ascii "@"
    | _ => false) && word.any (· matches .parameter ..)

/-- The fields of a word. -/
def expand (substitute : Source → Sh Bytes) (word : Word) : Sh (List Bytes) := do
  if (← get).arguments.isEmpty && isArguments word then return []
  let fields := fieldsOf (← Sh.separators) (← wordAtoms substitute word)
  if (← get).options.noNames || !fields.any isPattern then return fields.map bytesOf
  let files ← Sh.run Run.files
  return fields.flatMap fun field =>
    if isPattern field then
      match namesFitting files field with
      | [] => [bytesOf field]
      | names => names
    else [bytesOf field]

/-- The fields of words. -/
def expandAll (substitute : Source → Sh Bytes) : List Word → Sh (List Bytes)
  | [] => return []
  | word :: rest => do
    let first ← expand substitute word
    return first ++ (← expandAll substitute rest)

/-- The glyphs of a word as a whole. -/
def expandGlyphs (substitute : Source → Sh Bytes) (word : Word) : Sh (List Glyph) := do
  return glyphsOf (← wordAtoms substitute word)

/-- The bytes of a word as a whole. -/
def expandWhole (substitute : Source → Sh Bytes) (word : Word) : Sh Bytes := do
  return bytesOf (← expandGlyphs substitute word)

end LineShell.Script
