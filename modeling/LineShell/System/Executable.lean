import LineShell.System.Files
import LineShell.Text.Utf8

/-!
# Finding programs

A name without a slash is looked for in the directories of the search path. The file found must be one
that may be executed. One that begins with `#!` is handed to the interpreter named there; one that is no
program at all is handed to `sh`.

* A directory, or a file that may not be executed, is refused for lack of rights; a search goes on
  after such a refusal, and reports it only where nothing else is found.
* Only the first 256 bytes of a file are looked at. What stands between `#!` and the line end is the
  interpreter and, after blanks, one argument. Where the line does not end there, the interpreter must,
  and the argument is cut off. A NUL ends either.
* An interpreter may be a file with an interpreter itself, five times over.
-/

namespace LineShell

/-! ## The first line -/

/-- How much of a file is looked at to tell what it is. -/
def signatureSize : Nat := 256

/-- A byte that may stand around the names in the first line. -/
def isLineBlank (b : UInt8) : Bool := b = 32 || b = 9

/-- The first line after its `#!`, if it is one; a line without an end counts if it holds a whole name.
The beginning of the file is filled up with NULs. -/
def interpreterLine? (content : Bytes) : Option Bytes :=
  match content.take signatureSize ++ List.replicate (signatureSize - content.length) 0 with
  | 35 :: 33 :: rest =>
    let line := rest.takeWhile fun b => b != 10 && b != 0
    if rest[line.length]? = some 10 then some line
    else if ((rest.dropWhile isLineBlank).dropWhile fun b => !isLineBlank b && b != 0).isEmpty then none
    else some rest.dropLast
  | _ => none

/-- The interpreter that a file asks for in its first line, and the argument given there. -/
def interpreterOf? (content : Bytes) : Option (Bytes × Option Bytes) := do
  let line ← interpreterLine? content
  let trimmed := (line.reverse.dropWhile isLineBlank).reverse.dropWhile isLineBlank
  let name := trimmed.takeWhile fun b => !isLineBlank b && b != 0
  match trimmed, trimmed.drop name.length with
  | [], _ => none
  | _, [] => some (name, none)
  | _, 0 :: _ => some (name, none)
  | _, rest => some (name, some ((rest.dropWhile isLineBlank).takeWhile (· != 0)))

/-! ## Loading -/

/-- A program of the system, and the words that it is started with. -/
structure Image where
  program : String
  words : List Bytes

/-- How often an interpreter may have an interpreter. -/
def interpreterDepth : Nat := 5

/-- The program that a file leads to, and the words it is started with; `more` bounds how often an
interpreter is looked up. -/
def loadFile (files : FileTree) (more : Nat) (path : Bytes) (words : List Bytes) :
    Except Errno Image := do
  let id ← files.lookup path
  match files.get? id with
  | some (.program name) => return ⟨name, words⟩
  | some (.file _ content) =>
    files.demand id .execute
    match interpreterOf? content, more with
    | none, _ => throw .execFormat
    | some ([], _), _ => throw .accessDenied
    | some (interpreter, _), 0 =>
      match loadFile.start files interpreter with
      | .error errno => throw errno
      | .ok () => throw .tooManyLinks
    | some (interpreter, argument), more + 1 =>
      loadFile files more interpreter (interpreter :: argument.toList ++ path :: words.tail)
  | _ => throw .accessDenied
where
  /-- Whether a file could be started, whatever it is. -/
  start (files : FileTree) (path : Bytes) : Except Errno Unit := do
    let id ← files.lookup path
    match files.get? id with
    | some (.program _) => return ()
    | some (.file ..) => files.demand id .execute
    | _ => throw .accessDenied

/-- The path of the program that runs what is no program itself. -/
def shellPath : Bytes := Utf8.encode "/bin/sh".toList

/-- The program that a path leads to; a file that is no program is handed to `sh`. -/
def loadPath (files : FileTree) (path : Bytes) (words : List Bytes) : Except Errno Image :=
  match loadFile files interpreterDepth path words with
  | .error errno =>
    if errno = .execFormat then
      loadFile files interpreterDepth shellPath (shellPath :: path :: words.tail)
    else .error errno
  | found => found

/-- The directories of the search path. -/
def searchPath : List Bytes :=
  ["/usr/local/sbin", "/usr/local/bin", "/usr/sbin", "/usr/bin", "/sbin", "/bin"].map
    fun directory => Utf8.encode directory.toList

/-- Looks for a program in directories; `refused` tells that one was found that may not be started. -/
def search (files : FileTree) (words : List Bytes) : Bool → List Bytes → Except Errno Image
  | refused, [] => .error (if refused then .accessDenied else .noEntry)
  | refused, directory :: rest =>
    let name := words.headD []
    let path := if directory.isEmpty then name else directory ++ FileTree.slash :: name
    match loadPath files path words with
    | .error errno =>
      if errno = .accessDenied then search files words true rest
      else if errno = .noEntry || errno = .notDirectory then search files words refused rest
      else .error errno
    | found => found

/-- The program that words lead to, looked for in directories if need be. -/
def load (files : FileTree) (directories words : List Bytes) : Except Errno Image :=
  let name := words.headD []
  if name.isEmpty then .error .noEntry
  else if name.contains FileTree.slash then loadPath files name words
  else if FileTree.nameMax < name.length then .error .nameTooLong
  else search files words false directories

end LineShell
