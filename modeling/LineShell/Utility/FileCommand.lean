import LineShell.Utility.Escape

/-!
# Programs that change the file tree

`mkdir`, `rmdir`, `rm`, `chmod`, `touch`, `cp` and `mv`. Each operand is taken by itself: one that fails
is complained about, and the others are still carried out.
-/

namespace LineShell.Utility

/-- A complaint that something cannot be done with a path. -/
def cannot (what : String) (path : Bytes) (e : Errno) : Bytes :=
  ascii what ++ quoted path ++ ascii ": " ++ errorText e

/-- Carries an action out for each operand; it brings the complaint if it fails. -/
def forOperands (name : String) (operands : List Bytes) (action : Bytes → Run (Except Bytes Unit)) :
    Run Nat := do
  if operands.isEmpty then Run.usage name (ascii "missing operand") 1
  else
    let code ← operands.foldlM (fun code path => do
      match ← action path with
      | .ok () => return code
      | .error message => Run.fail name message 1) 0
    Run.finish name 1 code

/-- Replaces the file tree by the outcome of an action, if it succeeds. -/
def changeFiles (fault : Errno → Bytes) (change : FileTree → Except Errno FileTree) :
    Run (Except Bytes Unit) := do
  match change (← Run.files) with
  | .ok files =>
    Run.setFiles files
    return .ok ()
  | .error e => return .error (fault e)

/-- Tells what was done, if that is asked for. -/
def report (asked : Bool) (message : Bytes) : Run Unit := do
  if asked then
    let _ ← Run.print (message ++ [10])

/-! ## mkdir and rmdir -/

/-- Makes one directory. -/
def makeDirectory (files : FileTree) (path : Bytes) : Except Errno FileTree := do
  match ← files.locate path with
  | .node _ => throw .exists_
  | .free directory name =>
    return (← files.create directory name (.directory files.directoryMode directory [])).2

/-- The paths that lead to a path, and itself. -/
def pathsTo (path : Bytes) : List Bytes :=
  let start : Bytes := if path.head? = some FileTree.slash then [FileTree.slash] else []
  let names := FileTree.namesOf path
  (List.range names.length).map fun i =>
    start ++ ((names.take (i + 1)).intersperse [FileTree.slash]).flatten

/-- Makes directories, those above them too if they are missing; existing ones are no fault. -/
def makePath (verbose : Bool) (path : Bytes) : Run (Except Bytes Unit) :=
  (pathsTo path).foldlM (fun result step => do
    if result.toOption.isNone then return result
    let files ← Run.files
    let fault (e : Errno) : Bytes := cannot "cannot create directory " step e
    match files.lookup step with
    | .ok id =>
      if files.isDirectory id then return .ok ()
      else return .error (fault (if pathsTo path |>.getLast? |>.any (· = step) then .exists_ else .notDirectory))
    | .error _ =>
      let made ← changeFiles fault (makeDirectory · step)
      if made.toOption.isSome then
        report verbose (ascii "mkdir: created directory " ++ quoted step)
      return made) (.ok ())

/-! ### Modes -/

/-- The bits that a letter of a symbolic mode stands for, for all three classes of users. -/
def modeBits? (isDirectory : Bool) (mode : Nat) (letter : UInt8) : Option Nat :=
  let copied (bits : Nat) : Nat := bits &&& 7 ||| (bits &&& 7) * 8 ||| (bits &&& 7) * 64
  match Char.ofNat letter.toNat with
  | 'r' => some 0o444
  | 'w' => some 0o222
  | 'x' => some 0o111
  | 'X' => some (if isDirectory || mode &&& 0o111 != 0 then 0o111 else 0)
  | 's' => some 0o6000
  | 't' => some 0o1000
  | 'u' => some (copied (mode / 64))
  | 'g' => some (copied (mode / 8))
  | 'o' => some (copied mode)
  | _ => none

/-- The bits of the users that a letter stands for. -/
def whoBits? (letter : UInt8) : Option Nat :=
  match Char.ofNat letter.toNat with
  | 'u' => some 0o4700
  | 'g' => some 0o2070
  | 'o' => some 0o1007
  | 'a' => some 0o7777
  | _ => none

/-- Applies the operators of one clause of a symbolic mode, such as `+x` or `=r-w`, for the users with
the bits of `mask`. -/
def modeActions (isDirectory : Bool) (mask : Nat) : Nat → Nat → Bytes → Option Nat
  | _, mode, [] => some mode
  | 0, _, _ => none
  | fuel + 1, mode, operator :: rest => do
    let isOperator (b : UInt8) : Bool := b = 43 || b = 45 || b = 61
    let letters := rest.takeWhile (!isOperator ·)
    let bits ← letters.mapM (modeBits? isDirectory mode)
    let bits := bits.foldl (· ||| ·) 0 &&& mask
    let changed ← match Char.ofNat operator.toNat with
      | '+' => some (mode ||| bits)
      | '-' => some (mode &&& (0o7777 ^^^ bits))
      | '=' => some (mode &&& (0o7777 ^^^ mask) ||| bits)
      | _ => none
    modeActions isDirectory mask fuel changed (rest.drop letters.length)

/-- Applies one clause of a symbolic mode, such as `u+x`; one that names no users leaves out what the
mask for new files does. -/
def modeClause (files : FileTree) (isDirectory : Bool) (mode : Nat) (clause : Bytes) : Option Nat :=
  let who := clause.takeWhile fun b => (whoBits? b).isSome
  let mask := if who.isEmpty then files.masked 0o7777 else who.foldl (fun m b => m ||| (whoBits? b).getD 0) 0
  let actions := clause.drop who.length
  if actions.isEmpty then none else modeActions isDirectory mask actions.length mode actions

/-- The mode that a mode argument makes of another. -/
def changedMode? (files : FileTree) (argument : Bytes) (isDirectory : Bool) (mode : Nat) : Option Nat :=
  match leadingDigits 8 6 argument with
  | (value, _ + 1, []) => if value ≤ 0o7777 then some value else none
  | _ => (argument.splitOnP (· == 44)).foldlM (modeClause files isDirectory) mode

/-- Makes directories; with `-p` those above them too, and existing ones are no fault. -/
def mkdir : Utility := fun arguments => do
  match optionFault? "pv" "m" arguments with
  | some fault => Run.usage "mkdir" fault 1
  | none =>
    let (options, operands) := splitValuedOptions (ascii "m") arguments
    let has (letter : Char) : Bool := options.any (·.1 = letter.toNat.toUInt8)
    let change := options.lookup 109
    let files ← Run.files
    match change with
    | some text =>
      if (changedMode? files text true 0o777).isNone then
        return ← Run.fail "mkdir" (ascii "invalid mode " ++ quoted text) 1
    | none => pure ()
    forOperands "mkdir" operands fun path => do
      let made ← if has 'p' then makePath (has 'v') path
        else do
          let made ← changeFiles (cannot "cannot create directory " path) (makeDirectory · path)
          if made.toOption.isSome then
            report (has 'v') (ascii "mkdir: created directory " ++ quoted path)
          pure made
      match made, change with
      | .ok (), some text =>
        let files ← Run.files
        if let .ok id := files.lookup path then
          Run.setFiles (files.setMode id ((changedMode? files text true 0o777).getD 0))
        return made
      | _, _ => return made

/-- Removes an empty directory. -/
def removeDirectory (files : FileTree) (path : Bytes) : Except Errno FileTree := do
  match ← files.parentOf path with
  | none =>
    let name := (FileTree.namesOf path).getLastD []
    throw (if name = FileTree.dot then .invalid else if name = FileTree.dotDot then .notEmpty else .busy)
  | some (directory, name) =>
    let id ← files.child directory name
    files.demandChange directory
    match files.get? id with
    | some (.directory _ _ []) => return files.unlink directory name
    | some (.directory ..) => throw .notEmpty
    | _ => throw .notDirectory

/-- Removes empty directories; with `-p` those above them too. -/
def rmdir : Utility := fun arguments => do
  match optionFault? "pv" "" arguments with
  | some fault => Run.usage "rmdir" fault 1
  | none =>
    let (options, operands) := splitOptions arguments
    forOperands "rmdir" operands fun path => do
      let paths := if options.contains 112 then (pathsTo path).reverse else [path]
      paths.foldlM (fun result path => do
        if result.toOption.isNone then return result
        report (options.contains 118) (ascii "rmdir: removing directory, " ++ quoted path)
        changeFiles (cannot "failed to remove " path) (removeDirectory · path)) (.ok ())

/-! ## rm -/

/-- What `rm` is asked to do. -/
structure Removal where
  recursive : Bool
  force : Bool
  emptyDirectories : Bool
  verbose : Bool

/-- Removes one file, or a directory where that is asked for. -/
def Removal.remove (r : Removal) (path : Bytes) (files : FileTree) : Except Errno FileTree := do
  let id ← files.lookup path
  if files.isDirectory id then
    if r.recursive then
      match ← files.parentOf path with
      | some (directory, name) => files.remove directory name
      | none => throw .busy
    else if r.emptyDirectories then removeDirectory files path
    else throw .isDirectory
  else
    match ← files.parentOf path with
    | some (directory, name) => files.remove directory name
    | none => throw .invalid

/-- Removes files; with `-r` directories too, and with `-f` missing ones are no fault. -/
def rm : Utility := fun arguments => do
  match optionFault? "dfiIrRv" "" arguments with
  | some fault => Run.usage "rm" fault 1
  | none =>
    let (options, operands) := splitOptions arguments
    let removal : Removal :=
      ⟨options.contains 114 || options.contains 82, options.contains 102, options.contains 100,
        options.contains 118⟩
    if operands.isEmpty && removal.force then return 0
    forOperands "rm" operands fun path => do
      let name := (FileTree.namesOf path).getLastD []
      if removal.recursive && (name = FileTree.dot || name = FileTree.dotDot) then
        return .error (ascii "refusing to remove '.' or '..' directory: skipping " ++ quoted path)
      match removal.remove path (← Run.files) with
      | .ok files =>
        let what := if (files.lookup path).toOption.isSome then "" else "removed "
        report removal.verbose (ascii what ++ quoted path)
        Run.setFiles files
        return .ok ()
      | .error e =>
        if removal.force && (e = .noEntry || e = .notDirectory) then return .ok ()
        else return .error (cannot "cannot remove " path e)

/-! ## chmod and touch -/

/-- Changes the modes of files; with `-R` those of everything below them too. -/
def chmod : Utility := fun arguments => do
  let isOption (a : Bytes) : Bool :=
    a.head? = some 45 && 1 < a.length && a.tail.all (ascii "Rcfv").contains
  let options := (arguments.takeWhile isOption).flatten
  match arguments.dropWhile isOption with
  | [] => Run.usage "chmod" (ascii "missing operand") 1
  | [only] => Run.usage "chmod" (ascii "missing operand after " ++ quoted only) 1
  | change :: operands =>
    if (changedMode? (← Run.files) change false 0).isNone then
      Run.usage "chmod" (ascii "invalid mode: " ++ quoted change) 1
    else
      forOperands "chmod" operands fun path =>
        changeFiles (cannot "cannot access " path) fun files => do
          let id ← files.lookup path
          let below := if options.contains 82 then (files.contents 64 id).map Prod.snd else []
          return (id :: below).foldl (fun files id =>
            let mode := changedMode? files change (files.isDirectory id) (files.mode id)
            files.setMode id (mode.getD 0)) files

/-- Makes files that are missing, unless `-c` says not to. -/
def touch : Utility := fun arguments => do
  match optionFault? "acfhm" "drt" arguments with
  | some fault => Run.usage "touch" fault 1
  | none =>
    let (options, operands) := splitValuedOptions (ascii "drt") arguments
    if operands.isEmpty then Run.usage "touch" (ascii "missing file operand") 1
    else
      forOperands "touch" operands fun path =>
        changeFiles (cannot "cannot touch " path) fun files => do
          match ← files.locate path with
          | .node _ => return files
          | .free directory name =>
            if options.any (·.1 = 99) then return files
            if FileTree.endsWithSlash path then throw .noEntry
            return (← files.create directory name (.file files.fileMode [])).2

/-! ## cp and mv -/

/-- The last name of a path. -/
def lastName (path : Bytes) : Bytes :=
  (FileTree.namesOf path).getLastD path

/-- The path that a source gets under a target: within it if that is a directory. -/
def targetPath (files : FileTree) (source target : Bytes) : Bytes :=
  match files.lookup target with
  | .ok id =>
    if files.isDirectory id then
      (if FileTree.endsWithSlash target then target else target ++ [FileTree.slash]) ++ lastName source
    else target
  | .error _ => target

/-- Carries an action out for each source, with the path that it gets under the target. -/
def withTarget (name : String) (operands : List Bytes)
    (action : Bytes → Bytes → Run (Except Bytes Unit)) : Run Nat := do
  match operands.reverse with
  | [] => Run.usage name (ascii "missing file operand") 1
  | [only] => Run.usage name (ascii "missing destination file operand after " ++ quoted only) 1
  | target :: sources =>
    let files ← Run.files
    let isDirectory := (files.lookup target).toOption.any files.isDirectory
    if 1 < sources.length && !isDirectory then
      let reason := match files.lookup target with
        | .error e => e
        | .ok _ => .notDirectory
      Run.fail name (ascii "target " ++ quoted target ++ ascii ": " ++ errorText reason) 1
    else
      forOperands name sources.reverse fun source => do
        action source (targetPath (← Run.files) source target)

/-- Copies a node under a new name, with everything below it. -/
def copyNode (files : FileTree) : Nat → Nat → Nat → Bytes → Except Errno FileTree
  | 0, _, _, _ => .ok files
  | depth + 1, id, directory, name =>
    match files.get? id with
    | some (.directory mode _ entries) => do
      let (made, files) ← files.create directory name (.directory (files.masked mode) directory [])
      entries.foldlM (fun files (name, id) => copyNode files depth id made name) files
    | some (.file mode content) => do
      files.demand id .read
      return (← files.create directory name (.file (files.masked mode) content)).2
    | _ => do return (← files.create directory name (.file files.fileMode [])).2

/-- Copies files; with `-r` directories too. -/
def cp : Utility := fun arguments => do
  match optionFault? "afiprRv" "" arguments with
  | some fault => Run.usage "cp" fault 1
  | none =>
    let (options, operands) := splitOptions arguments
    let recursive := [114, 82, 97].any options.contains
    withTarget "cp" operands fun source target => do
      let files ← Run.files
      match files.lookup source with
      | .error e => return .error (cannot "cannot stat " source e)
      | .ok id =>
        if files.isDirectory id && !recursive then
          return .error (ascii "-r not specified; omitting directory " ++ quoted source)
        if (files.lookup target).toOption = some id then
          return .error (quoted source ++ ascii " and " ++ quoted target ++ ascii " are the same file")
        if !files.allows id .read then
          return .error (ascii "cannot open " ++ quoted source ++ ascii " for reading: " ++ errorText .accessDenied)
        changeFiles (cannot "cannot create regular file " target) fun files => do
          match ← files.locate target with
          | .free directory name => copyNode files 64 id directory name
          | .node out =>
            files.demand out .write
            let content := match files.get? id with
              | some (.file _ content) => content
              | _ => []
            match files.get? out with
            | some (.file mode _) => return files.set out (.file mode content)
            | some (.directory ..) => throw .isDirectory
            | _ => return files

/-- Renames files. -/
def mv : Utility := fun arguments => do
  match optionFault? "finv" "" arguments with
  | some fault => Run.usage "mv" fault 1
  | none =>
    let (_, operands) := splitOptions arguments
    withTarget "mv" operands fun source target => do
      let files ← Run.files
      match files.lookup source with
      | .error e => return .error (cannot "cannot stat " source e)
      | .ok id =>
        let existing := (files.lookup target).toOption
        if existing = some id then
          return .error (quoted source ++ ascii " and " ++ quoted target ++ ascii " are the same file")
        let isDirectory := files.isDirectory id
        if let some out := existing then
          if files.isDirectory out && !isDirectory then
            return .error (ascii "cannot overwrite directory " ++ quoted target ++ ascii " with non-directory")
          if !files.isDirectory out && isDirectory then
            return .error (ascii "cannot overwrite non-directory " ++ quoted target ++
              ascii " with directory " ++ quoted source)
        let fault (e : Errno) : Bytes :=
          ascii "cannot move " ++ quoted source ++ ascii " to " ++ quoted target ++ ascii ": " ++ errorText e
        changeFiles fault fun files => do
          let some (above, name) ← files.parentOf source | throw .busy
          let some (into, newName) ← files.parentOf target | throw .busy
          files.demandChange above
          files.demandChange into
          if isDirectory && (id = into || ((files.contents 64 id).map Prod.snd).contains into) then
            throw .invalid
          let files := ((files.unlink above name).unlink into newName).link into newName id
          match files.get? id with
          | some (.directory mode _ entries) => return files.set id (.directory mode into entries)
          | _ => return files

end LineShell.Utility
