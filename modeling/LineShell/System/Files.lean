import LineShell.Errno
import LineShell.Kernel.Basic

/-!
# A tree of files held in memory

Nodes are numbered; a directory maps names to nodes. Paths are byte strings: `locate` follows one from
the root or from the current directory and gives the node, or the directory and the name under which
a new node would stand.

* An empty path names nothing, a path of 4096 bytes or more is too long, and so is a name of more than
  255 bytes.
* A file in the middle of a path, or before a slash at its end, is not a directory; a path that ends
  with a slash cannot name a file to be made.
* All files belong to whoever looks at them, so that the owner's bits of a mode decide: reading and
  writing need theirs, and so does passing through a directory. What is not to be changed, such as the
  directories of the system, lacks the bit for writing.
-/

namespace LineShell

/-- A device. -/
inductive Device where
  /-- Reads end at once, writes vanish. -/
  | null
  /-- Reads bring zeros without end, writes vanish. -/
  | zero
  /-- Reads bring zeros without end, writes find no space. -/
  | full
  /-- The terminal of a session without one: it cannot be opened. -/
  | terminal
  deriving DecidableEq, Repr

/-- A node of the file tree. -/
inductive Node where
  | file (mode : Nat) (content : Bytes)
  | directory (mode : Nat) (parent : Nat) (entries : List (Bytes × Nat))
  | device (device : Device)
  /-- A program of the system, by its name. -/
  | program (name : String)
  /-- Another name for what a descriptor of the process that opens it leads to. -/
  | descriptor (number : Nat)

/-- A tree of files. -/
structure FileTree where
  nodes : Array Node
  /-- The directory from which paths without a leading slash start. -/
  current : Nat
  /-- The bits of a mode that new files lack. -/
  mask : Nat

/-- What may be done with a node. -/
inductive Right where
  | read
  | write
  /-- To start a program, or to pass through a directory. -/
  | execute
  deriving DecidableEq, Repr

/-- The bit of a mode by which the owner has a right. -/
def Right.bit : Right → Nat
  | .read => 0o400
  | .write => 0o200
  | .execute => 0o100

namespace FileTree

/-- The number of the root directory. -/
def root : Nat := 0

/-- The slash between the names of a path. -/
def slash : UInt8 := 47

/-- The usual mask for new files. -/
def usualMask : Nat := 0o022

/-- A mode without the bits of the mask. -/
def masked (t : FileTree) (mode : Nat) : Nat :=
  mode &&& (0o7777 ^^^ t.mask)

/-- The mode that most programs ask for when they create a file. -/
def creationMode : Nat := 0o666

/-- The mode of a new file, where most programs create it. -/
def fileMode (t : FileTree) : Nat := t.masked creationMode

/-- The mode of a new directory. -/
def directoryMode (t : FileTree) : Nat := t.masked 0o777

/-- The greatest length of a name. -/
def nameMax : Nat := 255

/-- The name of a directory within itself. -/
def dot : Bytes := [46]

/-- The name of the directory above. -/
def dotDot : Bytes := [46, 46]

/-- The node of a number. -/
def get? (t : FileTree) (id : Nat) : Option Node :=
  t.nodes[id]?

/-- The tree with another node at a number. -/
def set (t : FileTree) (id : Nat) (node : Node) : FileTree :=
  { t with nodes := t.nodes.setIfInBounds id node }

/-- The tree with a new node. -/
def push (t : FileTree) (node : Node) : Nat × FileTree :=
  (t.nodes.size, { t with nodes := t.nodes.push node })

/-- Applies a function to the entries of a directory. -/
def modifyEntries (t : FileTree) (id : Nat) (f : List (Bytes × Nat) → List (Bytes × Nat)) :
    FileTree :=
  match t.get? id with
  | some (.directory mode parent entries) => t.set id (.directory mode parent (f entries))
  | _ => t

/-- The tree with a name added to a directory. -/
def link (t : FileTree) (directory : Nat) (name : Bytes) (id : Nat) : FileTree :=
  t.modifyEntries directory fun entries => entries ++ [(name, id)]

/-- The tree with a name taken out of a directory. -/
def unlink (t : FileTree) (directory : Nat) (name : Bytes) : FileTree :=
  t.modifyEntries directory fun entries => entries.filter (·.1 != name)

/-- The tree with a new node under a name. -/
def add (t : FileTree) (directory : Nat) (name : Bytes) (node : Node) : Nat × FileTree :=
  let (id, t) := t.push node
  (id, t.link directory name id)

/-- The node is a directory. -/
def isDirectory (t : FileTree) (id : Nat) : Bool :=
  match t.get? id with
  | some (.directory ..) => true
  | _ => false

/-- The mode of a node. -/
def mode (t : FileTree) (id : Nat) : Nat :=
  match t.get? id with
  | some (.file mode _) => mode
  | some (.directory mode _ _) => mode
  | some (.device _) | some (.descriptor _) => 0o666
  | some (.program _) => 0o555
  | none => 0

/-- A right to a node is given. -/
def allows (t : FileTree) (id : Nat) (right : Right) : Bool :=
  t.mode id &&& right.bit != 0

/-- Insists on a right to a node. -/
def demand (t : FileTree) (id : Nat) (right : Right) : Except Errno Unit :=
  if t.allows id right then .ok () else .error .accessDenied

/-- One step down or up from a node. -/
def child (t : FileTree) (id : Nat) (name : Bytes) : Except Errno Nat :=
  match t.get? id with
  | some (.directory _ parent entries) =>
    if !t.allows id .execute then .error .accessDenied
    else if name = dot then .ok id
    else if name = dotDot then .ok parent
    else if nameMax < name.length then .error .nameTooLong
    else
      match entries.find? (·.1 == name) with
      | some (_, id) => .ok id
      | none => .error .noEntry
  | _ => .error .notDirectory

/-- Follows names from a node. -/
def walk (t : FileTree) (id : Nat) (names : List Bytes) : Except Errno Nat :=
  names.foldlM t.child id

/-- The names of a path. -/
def namesOf (path : Bytes) : List Bytes :=
  (path.splitOnP (· == slash)).filter (!·.isEmpty)

/-- Where a path without names starts: at the root or in the current directory. -/
def base (t : FileTree) (path : Bytes) : Nat :=
  if path.head? = some slash then root else t.current

/-- The path is one that can be followed at all. -/
def checkPath (path : Bytes) : Except Errno Unit :=
  match pathFault? path with
  | some errno => .error errno
  | none => .ok ()

/-- The path ends with a slash. -/
def endsWithSlash (path : Bytes) : Bool :=
  path.getLast? == some slash

/-- The node that a path leads to. -/
def lookup (t : FileTree) (path : Bytes) : Except Errno Nat := do
  checkPath path
  let id ← t.walk (t.base path) (namesOf path)
  if endsWithSlash path && !t.isDirectory id then throw .notDirectory
  return id

/-- Where a path leads. -/
inductive Place where
  /-- To this node. -/
  | node (id : Nat)
  /-- To this name in a directory that does not have it. -/
  | free (directory : Nat) (name : Bytes)

/-- The directory and the name that a path ends in; none for a path that ends in no proper name. -/
def parentOf (t : FileTree) (path : Bytes) : Except Errno (Option (Nat × Bytes)) := do
  checkPath path
  match (namesOf path).reverse with
  | [] => return none
  | last :: above =>
    let directory ← t.walk (t.base path) above.reverse
    if last = dot || last = dotDot then
      let _ ← t.child directory last
      return none
    if !t.isDirectory directory then throw .notDirectory
    return some (directory, last)

/-- The node of a name in a directory, or the place for it. -/
def placeIn (t : FileTree) (directory : Nat) (name : Bytes) : Except Errno Place :=
  match t.child directory name with
  | .ok id => .ok (.node id)
  | .error errno => if errno = .noEntry then .ok (.free directory name) else .error errno

/-- The node of a path, or the place for it. -/
def locate (t : FileTree) (path : Bytes) : Except Errno Place := do
  match ← t.parentOf path with
  | none => return .node (← t.lookup path)
  | some (directory, name) => t.placeIn directory name

/-- Insists on the right to change which names a directory has. -/
def demandChange (t : FileTree) (directory : Nat) : Except Errno Unit := do
  t.demand directory .execute
  t.demand directory .write

/-- Makes a node under a new name. -/
def create (t : FileTree) (directory : Nat) (name : Bytes) (node : Node) :
    Except Errno (Nat × FileTree) := do
  t.demandChange directory
  return t.add directory name node

/-- Takes a name out of a directory. -/
def remove (t : FileTree) (directory : Nat) (name : Bytes) : Except Errno FileTree := do
  t.demandChange directory
  return t.unlink directory name

/-- Opens the node of a path for writing: an existing file is kept, or emptied if that is asked for;
a missing one is created with the mode, as far as the mask lets it. -/
def openForWriting (t : FileTree) (mode : Nat) (empty : Bool) (path : Bytes) :
    Except Errno (Nat × FileTree) := do
  match ← t.parentOf path with
  | none =>
    let _ ← t.lookup path
    throw .isDirectory
  | some (directory, name) =>
    if endsWithSlash path then throw .isDirectory
    match ← t.placeIn directory name with
    | .free directory name => t.create directory name (.file (t.masked mode) [])
    | .node id =>
      if t.isDirectory id then throw .isDirectory
      t.demand id .write
      match t.get? id with
      | some (.file mode _) => return (id, if empty then t.set id (.file mode []) else t)
      | some (.device .terminal) => throw .noDevice
      | _ => return (id, t)

/-- Opens the node of a path for reading. -/
def openForReading (t : FileTree) (path : Bytes) : Except Errno Nat := do
  let id ← t.lookup path
  t.demand id .read
  match t.get? id with
  | some (.device .terminal) => throw .noDevice
  | _ => return id

/-- Opens the node of a path for a direction; a file that is created gets the mode, as far as the mask
lets it. -/
def openFor (t : FileTree) (direction : Direction) (path : Bytes) (mode : Nat := creationMode) :
    Except Errno (Nat × FileTree) :=
  match direction with
  | .input => (t.openForReading path).map fun id => (id, t)
  | .output => t.openForWriting mode true path
  | .append => t.openForWriting mode false path

/-- The tree with another mode of a node. -/
def setMode (t : FileTree) (id mode : Nat) : FileTree :=
  match t.get? id with
  | some (.file _ content) => t.set id (.file mode content)
  | some (.directory _ parent entries) => t.set id (.directory mode parent entries)
  | _ => t

/-- The names below a directory, with their nodes, each after the directory that it is in; `depth`
bounds how far down is looked. -/
def contents (t : FileTree) : Nat → Nat → List (List Bytes × Nat)
  | 0, _ => []
  | depth + 1, id =>
    match t.get? id with
    | some (.directory _ _ entries) =>
      if !t.allows id .read then []
      else
        entries.flatMap fun (name, child) =>
          ([name], child) :: (t.contents depth child).map fun (names, id) => (name :: names, id)
    | _ => []

/-- The content of a file as its owner can read it, empty where that is refused. -/
def readable (t : FileTree) (id : Nat) : Bytes :=
  match t.get? id with
  | some (.file _ content) => if t.allows id .read then content else []
  | _ => []

end FileTree

end LineShell
