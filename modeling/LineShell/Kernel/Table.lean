import LineShell.Errno

/-!
# Descriptor tables

A process reaches open files and pipes through its **descriptor table**, which maps small numbers to
slots. `Table.get?` is the view through which everything about a table is said; the operations are

* `insert`: a new slot at the lowest free number, refused when the table is full;
* `close`;
* `duplicate`: the slot of one number also at another, there never close-on-exec;
* `move`: the same, and the first number closed; nothing at all when the two are equal;
* `install`: as `move`, but also clears close-on-exec when the two numbers are equal;
* `forExec`: what a program that takes the process over still sees.
-/

namespace LineShell

/-- The end of a pipe. -/
inductive PipeEnd where
  | read
  | write
  deriving DecidableEq, Repr

/-- What a descriptor leads to. -/
inductive Handle where
  /-- An open file, by its number among the system's open files. -/
  | file (id : Nat)
  /-- One end of a pipe, by the number of the pipe. -/
  | pipe (id : Nat) (side : PipeEnd)
  deriving DecidableEq, Repr

/-- A slot of a descriptor table. -/
structure Slot where
  handle : Handle
  /-- The descriptor is closed when a program takes the process over. -/
  closeOnExec : Bool
  deriving DecidableEq, Repr

/-- A descriptor table: the slot of each number, and the bound on numbers. -/
structure Table where
  slots : List (Option Slot)
  capacity : Nat
  deriving DecidableEq, Repr

namespace Table

/-- The slot at a number, if it is open. -/
def get? (t : Table) (fd : Nat) : Option Slot :=
  (t.slots[fd]?).join

/-- The lowest number that is not open. -/
def lowestFree (t : Table) : Nat :=
  t.slots.findIdx Option.isNone

/-- Puts a slot at a place of a list, which grows as far as needed. -/
def place (slot : Option Slot) : List (Option Slot) → Nat → List (Option Slot)
  | [], 0 => [slot]
  | [], fd + 1 => none :: place slot [] fd
  | _ :: rest, 0 => slot :: rest
  | first :: rest, fd + 1 => first :: place slot rest fd

/-- The table with a slot at a number. -/
def put (t : Table) (fd : Nat) (slot : Slot) : Table :=
  { t with slots := place (some slot) t.slots fd }

/-- A new slot at the lowest free number. -/
def insert (t : Table) (slot : Slot) : Except Errno (Nat × Table) :=
  if t.lowestFree < t.capacity then .ok (t.lowestFree, t.put t.lowestFree slot)
  else .error .tooManyOpen

/-- The table with a number closed. -/
def close (t : Table) (fd : Nat) : Table :=
  { t with slots := t.slots.set fd none }

/-- Makes `target` lead to where `source` leads, across program starts too. -/
def duplicate (t : Table) (source target : Nat) : Except Errno Table :=
  match t.get? source with
  | none => .error .badDescriptor
  | some slot =>
    if target < t.capacity then .ok (t.put target { slot with closeOnExec := false })
    else .error .badDescriptor

/-- Moves a descriptor to another number (`move_fd`). -/
def move (t : Table) (source target : Nat) : Except Errno Table :=
  if source = target then .ok t
  else (t.duplicate source target).map fun t => t.close source

/-- Keeps a descriptor open across program starts. -/
def keepOnExec (t : Table) (fd : Nat) : Except Errno Table :=
  match t.get? fd with
  | none => .error .badDescriptor
  | some slot => .ok (t.put fd { slot with closeOnExec := false })

/-- Puts a freshly opened descriptor in the place of `target`, for the program to come. The fresh
number does not stay open, even on failure (`install_fd`). -/
def install (t : Table) (fresh target : Nat) : Except Errno Unit × Table :=
  if fresh = target then
    match t.keepOnExec fresh with
    | .ok t => (.ok (), t)
    | .error errno => (.error errno, t)
  else
    match t.duplicate fresh target with
    | .ok t => (.ok (), t.close fresh)
    | .error errno => (.error errno, t.close fresh)

/-- What is left of a table when a program takes the process over. -/
def forExec (t : Table) : Table :=
  { t with slots := t.slots.map fun slot => slot.filter fun s => !s.closeOnExec }

end Table

end LineShell
