import LineShell.Utility.FileCommand

/-!
# Names of files

`ls` lists names in their byte order, `basename` and `dirname` take paths apart.
-/

namespace LineShell.Utility

/-- Names in their byte order. -/
def sortedNames (names : List Bytes) : List Bytes :=
  let le : Bytes → Bytes → Bool := fun a b => a ≤ b
  names.mergeSort le

/-- The names that `ls` shows of a directory. -/
def shownNames (options : List UInt8) (entries : List (Bytes × Nat)) : List (Bytes × Nat) :=
  let hidden (entry : Bytes × Nat) : Bool := entry.1.head? = some 46
  let all := options.contains 97 || options.contains 65
  let le : Bytes × Nat → Bytes × Nat → Bool := fun a b => a.1 ≤ b.1
  let sorted := ((if all then entries else entries.filter (!hidden ·)).mergeSort le)
  if options.contains 114 then sorted.reverse else sorted

/-- How a name is shown: with a mark for what it is, if that is asked for. -/
def markedName (files : FileTree) (options : List UInt8) (entry : Bytes × Nat) : Bytes :=
  let (name, id) := entry
  if files.isDirectory id && (options.contains 112 || options.contains 70) then name ++ [FileTree.slash]
  else if options.contains 70 && files.mode id &&& 0o111 != 0 then name ++ [42]
  else name

/-- The blocks that show a directory, and with `-R` those below it; an error is that of a directory that
cannot be read. -/
def listing (files : FileTree) (options : List UInt8) (headed : Bool) :
    Nat → Bytes → Nat → List (Except Bytes Bytes)
  | 0, _, _ => []
  | depth + 1, path, id =>
    match files.get? id with
    | some (.directory _ parent entries) =>
      if !files.allows id .read then [.error (cannot "cannot open directory " path .accessDenied)]
      else
        let shown := shownNames options entries
        let dots := if options.contains 97 then [(FileTree.dot, id), (FileTree.dotDot, parent)] else []
        let dots := if options.contains 114 then [] else dots
        let names := (dots ++ shown).map (markedName files options)
        let names := if options.contains 114 && options.contains 97 then
            names ++ [FileTree.dotDot, FileTree.dot]
          else names
        let block := (if headed then path ++ ascii ":\n" else []) ++ unlines names
        let below := if options.contains 82 then shown.filter (files.isDirectory ·.2) else []
        .ok block :: below.flatMap fun (name, id) =>
          listing files options headed depth (path ++ FileTree.slash :: name) id
    | _ => []

/-- Lists directories, one name a line. -/
def ls : Utility := fun arguments => do
  match optionFault? "1aACdFpqrRU" "" arguments with
  | some fault => Run.usage "ls" fault 2
  | none =>
    let (options, operands) := splitOptions arguments
    let operands := if operands.isEmpty then [FileTree.dot] else sortedNames operands
    let operands := if options.contains 114 then operands.reverse else operands
    let files ← Run.files
    let faulty := operands.filter fun path => (files.lookup path).toOption.isNone
    for path in faulty do
      if let .error e := files.lookup path then
        Run.warn "ls" (cannot "cannot access " path e)
    let found := operands.filterMap fun path => (files.lookup path).toOption.map fun id => (path, id)
    let isListed (entry : Bytes × Nat) : Bool := files.isDirectory entry.2 && !options.contains 100
    let plain := (found.filter (!isListed ·)).map (markedName files options)
    let headed := 1 < operands.length || options.contains 82
    let blocks := (found.filter isListed).flatMap fun (path, id) =>
      listing files options headed 64 path id
    let blocks := if plain.isEmpty then blocks else .ok (unlines plain) :: blocks
    let (code, _) ← blocks.foldlM (fun (code, isFirst) block => do
      match block with
      | .ok bytes =>
        let _ ← Run.print (if isFirst then bytes else 10 :: bytes)
        return (code, false)
      | .error message =>
        Run.warn "ls" message
        return (2, isFirst)) (if faulty.isEmpty then 0 else 2, true)
    Run.finish "ls" 2 code

/-- A path without slashes at its end; at least one byte is left. -/
def withoutEndSlashes (path : Bytes) : Bytes :=
  let trimmed := (path.reverse.dropWhile (· = FileTree.slash)).reverse
  if trimmed.isEmpty then path.take 1 else trimmed

/-- Writes the last name of a path, without a given ending. -/
def basename : Utility := fun arguments => do
  match arguments with
  | [] => Run.usage "basename" (ascii "missing operand") 1
  | path :: rest =>
    if 1 < rest.length then
      Run.usage "basename" (ascii "extra operand " ++ quoted (rest.getD 1 [])) 1
    else
      let name := lastName (withoutEndSlashes path)
      let ending := rest.headD []
      let name := if ending.isSuffixOf name && ending != name then name.take (name.length - ending.length)
        else name
      Run.finishWith "basename" 0 (name ++ [10])

/-- Writes paths without their last names. -/
def dirname : Utility := fun arguments => do
  match arguments with
  | [] => Run.usage "dirname" (ascii "missing operand") 1
  | paths =>
    let isSlash (b : UInt8) : Bool := b = FileTree.slash
    let above (path : Bytes) : Bytes :=
      let trimmed := (path.reverse.dropWhile isSlash).dropWhile (!isSlash ·)
      let kept := (trimmed.dropWhile isSlash).reverse
      if !kept.isEmpty then kept
      else if path.head? = some FileTree.slash then [FileTree.slash]
      else FileTree.dot
    Run.finishWith "dirname" 0 (unlines (paths.map above))

end LineShell.Utility
