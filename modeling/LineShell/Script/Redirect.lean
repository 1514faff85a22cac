import LineShell.Script.Expand

/-!
# Redirections in scripts

A redirection gives a descriptor another place to lead to. The descriptor as it was before is kept under
a number from 10 on, which no program sees, and put back when the command is done.
-/

namespace LineShell.Script

/-- A descriptor that was redirected, and the number under which it is kept, if it was open. -/
structure Kept where
  descriptor : Nat
  keptAt : Option Nat

/-- The first number under which descriptors are kept. -/
def keptFrom : Nat := 10

/-- The lowest free number from a given one on. -/
def freeFrom (t : Table) (first : Nat) : Nat :=
  first + (t.slots.drop first).findIdx Option.isNone

/-- Opens a file for a redirection: its descriptor. -/
def openAt (direction : Direction) (path : Bytes) : Sh Nat := do
  match ← Sh.run (Run.openFile direction path) with
  | .ok fd => return fd
  | .error errno =>
    let (verb, missing) := if direction = .input then ("open", "No such file")
      else ("create", "Directory nonexistent")
    let reason := if errno = .noEntry || errno = .notDirectory then ascii missing else errorText errno
    Sh.stop (ascii "cannot " ++ ascii verb ++ ascii " " ++ path ++ ascii ": " ++ reason)

/-- Opens a file that is made if it is missing, to read from it or to write over it: its descriptor. -/
def openUpdating (direction : Direction) (path : Bytes) : Sh Nat := do
  let fd ← openAt .append path
  if let some handle ← Sh.run (Run.handle? fd) then
    Sh.run (modify fun (s : System) => s.turn handle direction)
  return fd

/-- Makes a pipe that holds a text: the descriptor to read it from. -/
def textPipe (content : Bytes) : Sh Nat := do
  let id ← Sh.run (modifyGet fun (s : System) =>
    let (id, s) := s.newPipe
    (id, s.write (.pipe id .write) content))
  let fd := freeFrom (← Sh.table) 0
  Sh.run (Run.modifyTable fun table => table.put fd ⟨.pipe id .read, false⟩)
  return fd

/-- Where a redirection leads its descriptor. -/
inductive Lead where
  /-- To where a fresh descriptor leads, which is closed afterwards. -/
  | fresh (fd : Nat)
  /-- To where another descriptor leads. -/
  | copy (fd : Nat)
  | closed

/-- Finds out where a redirection leads a descriptor. -/
def leadOf (substitute : Source → Sh Bytes) (descriptor : Nat) (target : Target) : Sh Lead := do
  match target with
  | .input path => return .fresh (← openAt .input (← expandWhole substitute path))
  | .output path => return .fresh (← openAt .output (← expandWhole substitute path))
  | .append path => return .fresh (← openAt .append (← expandWhole substitute path))
  | .update path =>
    let direction := if descriptor = 1 || descriptor = 2 then Direction.output else .input
    return .fresh (← openUpdating direction (← expandWhole substitute path))
  | .text content => return .fresh (← textPipe (← expandWhole substitute content))
  | .copy source =>
    match ← expandWhole substitute source with
    | [45] => return .closed
    | [digit] =>
      if isDigit digit then return .copy (digitsValue [digit]) else bad
    | _ => bad
where
  /-- Refuses what is no descriptor. -/
  bad : Sh Lead := Sh.stop (ascii "Syntax error: Bad fd number")

/-- Keeps a descriptor, unless it is kept already. -/
def keepDescriptor (kept : List Kept) (fd : Nat) : Sh (List Kept) := do
  if kept.any fun k => k.descriptor = fd then return kept
  let table ← Sh.table
  match table.get? fd with
  | none => return ⟨fd, none⟩ :: kept
  | some slot =>
    let place := freeFrom table keptFrom
    Sh.run (Run.modifyTable fun table => table.put place { slot with closeOnExec := true })
    return ⟨fd, some place⟩ :: kept

/-- Puts kept descriptors back. -/
def putBack (kept : List Kept) : Sh Unit :=
  Sh.run <| Run.modifyTable fun table =>
    kept.foldl (fun table k =>
      match k.keptAt with
      | none => table.close k.descriptor
      | some place =>
        match table.get? place with
        | some slot => (table.put k.descriptor { slot with closeOnExec := false }).close place
        | none => table) table

/-- Lets kept descriptors go. -/
def letGo (kept : List Kept) : Sh Unit :=
  Sh.run <| Run.modifyTable fun table =>
    kept.foldl (fun table k => k.keptAt.elim table table.close) table

/-- Carries redirections out in order: the descriptors kept. Where one fails, all are put back. -/
def redirect (substitute : Source → Sh Bytes) : List Kept → List Redirection → Sh (List Kept)
  | kept, [] => return kept
  | kept, ⟨fd, target⟩ :: rest => do
    let next : Sh (List Kept) := do
      match ← leadOf substitute fd target with
      | .fresh new =>
        if new = fd then return ⟨fd, none⟩ :: kept
        let kept ← keepDescriptor kept fd
        Sh.run (Run.modifyTable fun table =>
          match table.get? new with
          | some slot => (table.put fd slot).close new
          | none => table)
        return kept
      | .copy source =>
        match (← Sh.table).get? source with
        | none => Sh.stop (decimal source ++ ascii ": " ++ errorText .badDescriptor)
        | some slot =>
          if source = fd then return kept
          let kept ← keepDescriptor kept fd
          Sh.run (Run.modifyTable fun table => table.put fd { slot with closeOnExec := false })
          return kept
      | .closed =>
        let kept ← keepDescriptor kept fd
        Sh.run (Run.close fd)
        return kept
    let kept ← tryCatch next fun leave => do
      putBack kept
      throw leave
    redirect substitute kept rest

end LineShell.Script
