import LineShell.Kernel.Basic
import LineShell.Session.Reader
import LineShell.System.Files

/-!
# A system held in memory

What processes share: the file tree, the open files with their positions, the bytes in each pipe, and
what is typed at the terminal.

A call may have to wait. Reading from an empty pipe waits as long as some process holds a write end of
it, and finds the end of the input otherwise. Writing to a pipe takes as many bytes as there is room
for, waits where there is none, and fails where no process holds a read end. `isHeld` tells which
handles are held.
-/

namespace LineShell

/-- An open file. -/
inductive OpenFile where
  /-- A node, the position of the next read or write, and what it was opened for. -/
  | node (id : Nat) (position : Nat) (direction : Direction)
  | terminal
  deriving DecidableEq, Repr

/-- How many bytes a pipe has room for. -/
def pipeRoom : Nat := 65536

/-- So many bytes are written to a pipe all at once or not at all. -/
def pipeUnit : Nat := 4096

/-- What processes share. -/
structure System where
  files : FileTree
  opened : Array OpenFile
  /-- The bytes in each pipe. -/
  pipes : Array Bytes
  /-- What is typed at the terminal; `none` is an end of input. -/
  typed : List (Option UInt8)

namespace System

/-- The bytes that reading a node brings, from a position on, `limit` of them at most. -/
def bytesAt (s : System) (id position limit : Nat) : Except Errno Bytes :=
  match s.files.get? id with
  | some (.file _ content) => .ok ((content.drop position).take limit)
  | some (.directory ..) => .error .isDirectory
  | some (.device .zero) | some (.device .full) => .ok (List.replicate limit 0)
  | _ => .ok []

/-- All bytes of a node from a position on; a device has none. -/
def bytesFrom (s : System) (id position : Nat) : Except Errno Bytes :=
  match s.files.get? id with
  | some (.file _ content) => .ok (content.drop position)
  | some (.directory ..) => .error .isDirectory
  | _ => .ok []

/-- The system with another position of an open file. -/
def seek (s : System) (file position : Nat) : System :=
  match s.opened[file]? with
  | some (.node id _ direction) =>
    { s with opened := s.opened.setIfInBounds file (.node id position direction) }
  | _ => s

/-- The bytes in a pipe. -/
def pipe (s : System) (id : Nat) : Bytes :=
  s.pipes.getD id []

/-- The system with other bytes in a pipe. -/
def setPipe (s : System) (id : Nat) (bytes : Bytes) : System :=
  { s with pipes := s.pipes.setIfInBounds id bytes }

/-! ## Reading -/

/-- What one reads from a terminal at once: a line, or what comes before an end of input. -/
def typedLine (limit : Nat) : List (Option UInt8) → Bytes × List (Option UInt8)
  | [] => ([], [])
  | none :: rest => ([], rest)
  | some b :: rest =>
    match limit with
    | 0 => ([], some b :: rest)
    | limit + 1 =>
      if b = 10 then ([b], rest)
      else
        let (line, rest) := typedLine limit rest
        (b :: line, rest)

/-- Reads at most `limit` bytes; no bytes mean the end of the input, and no result that the reader has
to wait. -/
def read (isHeld : Handle → Bool) (h : Handle) (limit : Nat) (s : System) :
    Option (Except Errno Bytes × System) :=
  match h with
  | .pipe id .read =>
    match s.pipe id with
    | [] => if isHeld (.pipe id .write) then none else some (.ok [], s)
    | bytes => some (.ok (bytes.take limit), s.setPipe id (bytes.drop limit))
  | .pipe _ .write => some (.error .badDescriptor, s)
  | .file file =>
    match s.opened[file]? with
    | some (.node id position .input) =>
      match s.bytesAt id position limit with
      | .ok bytes => some (.ok bytes, s.seek file (position + bytes.length))
      | .error errno => some (.error errno, s)
    | some .terminal =>
      let (line, typed) := typedLine limit s.typed
      some (.ok line, { s with typed })
    | _ => some (.error .badDescriptor, s)

/-! ## Writing -/

/-- The content with bytes written over it at a position, zeros filling a gap. -/
def overwrite (content : Bytes) (position : Nat) (bytes : Bytes) : Bytes :=
  if position = content.length then content ++ bytes
  else
    content.take position ++ List.replicate (position - content.length) 0 ++ bytes ++
      content.drop (position + bytes.length)

/-- Writes bytes to an open file. -/
def writeFile (file : Nat) (bytes : Bytes) (s : System) : Except Errno Unit × System :=
  match s.opened[file]? with
  | some (.node _ _ .input) | none => (.error .badDescriptor, s)
  | some .terminal => (.ok (), s)
  | some (.node id position direction) =>
    match s.files.get? id with
    | some (.file mode content) =>
      let start := if direction = .append then content.length else position
      let s := { s with files := s.files.set id (.file mode (overwrite content start bytes)) }
      (.ok (), s.seek file (start + bytes.length))
    | some (.device .full) => (if bytes.isEmpty then .ok () else .error .noSpace, s)
    | _ => (.ok (), s)

/-- Writes bytes without a wait, whatever the room in a pipe. -/
def write (h : Handle) (bytes : Bytes) (s : System) : System :=
  match h with
  | .pipe id .write => s.setPipe id (s.pipe id ++ bytes)
  | .pipe _ .read => s
  | .file file => (s.writeFile file bytes).2

/-- Writes as many bytes as there is room for, and tells how many; no result means that the writer has
to wait. -/
def writeSome (isHeld : Handle → Bool) (h : Handle) (bytes : Bytes) (s : System) :
    Option (Except Errno Nat × System) :=
  match h with
  | .pipe id .write =>
    let held := s.pipe id
    let room := pipeRoom - held.length
    if !isHeld (.pipe id .read) then some (.error .brokenPipe, s)
    else if room < min bytes.length pipeUnit then none
    else some (.ok (min room bytes.length), s.setPipe id (held ++ bytes.take room))
  | .pipe _ .read => some (.error .badDescriptor, s)
  | .file file =>
    let (result, s) := s.writeFile file bytes
    some (result.map fun () => bytes.length, s)

/-! ## Opening -/

/-- Opens a node. -/
def openNode (id : Nat) (direction : Direction) (s : System) : Handle × System :=
  (.file s.opened.size, { s with opened := s.opened.push (.node id 0 direction) })

/-- The system with an open file used in another direction. -/
def turn (h : Handle) (direction : Direction) (s : System) : System :=
  match h with
  | .pipe .. => s
  | .file file =>
    match s.opened[file]? with
    | some (.node id position _) =>
      { s with opened := s.opened.setIfInBounds file (.node id position direction) }
    | _ => s

/-- Opens anew what a handle leads to. -/
def reopen (h : Handle) (direction : Direction) (s : System) : Except Errno (Handle × System) :=
  match h with
  | .pipe id _ => .ok (.pipe id (if direction = .input then .read else .write), s)
  | .file file =>
    match s.opened[file]? with
    | some (.node id _ _) => do
      s.files.demand id (if direction = .input then .read else .write)
      let files := match direction, s.files.get? id with
        | .output, some (.file mode _) => s.files.set id (.file mode [])
        | _, _ => s.files
      return { s with files }.openNode id direction
    | some .terminal => .ok (h, s)
    | none => .error .noEntry

/-- Opens a file on behalf of a process with a table of descriptors; a file that is created gets the
mode, as far as the mask lets it. -/
def openFile (t : Table) (direction : Direction) (path : Bytes) (s : System)
    (mode : Nat := FileTree.creationMode) : Except Errno (Handle × System) := do
  let (id, files) ← s.files.openFor direction path mode
  match files.get? id with
  | some (.descriptor fd) =>
    match t.get? fd with
    | some slot => s.reopen slot.handle direction
    | none => throw .noEntry
  | _ => return { s with files }.openNode id direction

/-- Makes a pipe. -/
def newPipe (s : System) : Nat × System :=
  (s.pipes.size, { s with pipes := s.pipes.push [] })

/-! ## The terminal, and reading byte by byte -/

/-- What reads of single bytes from a handle will bring. -/
def arrivals (h : Handle) (s : System) : List Arrival :=
  match h with
  | .pipe id .read => (s.pipe id).map .byte
  | .pipe _ .write => [.failed .badDescriptor]
  | .file file =>
    match s.opened[file]? with
    | some (.node id position _) =>
      match s.bytesFrom id position with
      | .ok bytes => bytes.map .byte
      | .error errno => [.failed errno]
    | some .terminal => s.typed.map fun item => item.elim .endOfInput .byte
    | none => [.failed .badDescriptor]

/-- The system after so many of these reads. -/
def advance (h : Handle) (count : Nat) (s : System) : System :=
  match h with
  | .pipe id .read => s.setPipe id ((s.pipe id).drop count)
  | .pipe _ .write => s
  | .file file =>
    match s.opened[file]? with
    | some (.node _ position _) => s.seek file (position + count)
    | some .terminal => { s with typed := s.typed.drop count }
    | none => s

/-- What a terminal makes of the bytes typed: an end-of-transmission byte sends on what was typed since
the last line end or the last such byte, and is an end of input where that is nothing. -/
def typedOf (bytes : Bytes) : List (Option UInt8) :=
  let step (state : List (Option UInt8) × Bool) (b : UInt8) : List (Option UInt8) × Bool :=
    if b = 4 then (if state.2 then none :: state.1 else state.1, true)
    else (some b :: state.1, b == 10)
  (bytes.foldl step ([], true)).1.reverse

end System

end LineShell
