import LineShell.Kernel.Launch

/-!
# The entries of a chronicle

What the interpreter prints goes to a buffer of its own, which a fork copies and a flush writes out. A
**chronicle** lists what happens to that output, together with what children write, are forked and are
reaped for (`Entry`).

* `printedBytes`, `writtenBytes`, `heardFrom`: what is printed, what is written, and what reaches the
  system, in order.
* `Entry.Before`: which entries may come before which.
* `Buffered`: what entries make of the buffer. `Buffered.written_append`: what is written is what was
  printed, each byte once and in order, but for what is still in the buffer.
-/

namespace LineShell

/-! ## Entries -/

/-- What reaches the system. -/
inductive Receipt where
  /-- A process of the interpreter's own wrote bytes to where a handle leads. -/
  | written (handle : Handle) (bytes : Bytes)
  /-- A program wrote bytes. -/
  | spoken (pid : Pid) (bytes : Bytes)
  deriving DecidableEq

/-- Something that happens to the output of the interpreter and of its children. -/
inductive Entry where
  /-- The interpreter prints: the bytes go to its buffer. -/
  | printed (bytes : Bytes)
  /-- The interpreter writes bytes from the front of its buffer to where its standard output leads. -/
  | wrote (handle : Handle) (bytes : Bytes)
  /-- The interpreter writes a diagnostic. -/
  | complained (handle : Handle) (message : Text)
  /-- A child is forked, with a copy of the buffer. -/
  | forked (pid : Pid) (copy : Bytes)
  /-- A child that is not a program yet writes a diagnostic. -/
  | diagnosed (pid : Pid) (handle : Handle) (message : Text)
  /-- The program of a child writes. -/
  | spoke (pid : Pid) (bytes : Bytes)
  /-- A child leaves without having become a program, and writes out its copy of the buffer, to where its
  standard output leads. -/
  | left (pid : Pid) (target : Option Handle) (copy : Bytes)
  | reaped (pid : Pid)
  deriving DecidableEq

namespace Entry

def printing : Entry → Bytes
  | .printed bytes => bytes
  | _ => []

def writing : Entry → Bytes
  | .wrote _ bytes => bytes
  | _ => []

/-- What reaches the system with an entry. -/
def heard : Entry → List Receipt
  | .wrote handle bytes => [.written handle bytes]
  | .complained handle message => [.written handle (diagnostic message)]
  | .diagnosed _ handle message => [.written handle (diagnostic message)]
  | .spoke pid bytes => [.spoken pid bytes]
  | .left _ (some handle) (byte :: rest) => [.written handle (byte :: rest)]
  | _ => []

/-- The child that writes something. -/
def author? : Entry → Option Pid
  | .diagnosed pid _ _ => some pid
  | .spoke pid _ => some pid
  | .left pid _ _ => some pid
  | _ => none

/-- The copy of the buffer that a child is given, or writes out. -/
def copy? : Entry → Option Bytes
  | .forked _ copy => some copy
  | .left _ _ copy => some copy
  | _ => none

/-- A child does something itself: it writes a diagnostic, or its program writes. -/
inductive IsOf (pid : Pid) : Entry → Prop where
  | diagnosed (handle : Handle) (message : Text) : IsOf pid (.diagnosed pid handle message)
  | spoke (bytes : Bytes) : IsOf pid (.spoke pid bytes)

/-- One entry may come before another: a child that was reaped writes nothing later, and one that is
forked has written nothing earlier. -/
structure Before (e e' : Entry) : Prop where
  reaped : ∀ pid, e = .reaped pid → e'.author? ≠ some pid
  forked : ∀ pid copy, e' = .forked pid copy → e.author? ≠ some pid

/-- Entries that are no forks and no reapings may come in any order. -/
theorem Before.of_neither {e e' : Entry} (h : ∀ pid, e ≠ .reaped pid)
    (h' : ∀ pid copy, e' ≠ .forked pid copy) : Before e e' where
  reaped pid he := absurd he (h pid)
  forked pid copy he := absurd he (h' pid copy)

/-- What a child does itself is no printing, writing, forking or reaping of the interpreter. -/
theorem IsOf.cases {pid : Pid} {e : Entry} (h : IsOf pid e) :
    e.author? = some pid ∧ e.printing = [] ∧ e.writing = [] ∧ e.copy? = none ∧
      (∀ handle bytes, e ≠ .wrote handle bytes) ∧ (∀ other, e ≠ .reaped other) ∧
      ∀ other copy, e ≠ .forked other copy := by
  cases h <;> exact ⟨rfl, rfl, rfl, rfl, by simp, by simp, by simp⟩

end Entry

/-- What the interpreter printed, in order. -/
def printedBytes (entries : List Entry) : Bytes := entries.flatMap Entry.printing

/-- What the interpreter wrote to its standard output, in order. -/
def writtenBytes (entries : List Entry) : Bytes := entries.flatMap Entry.writing

/-- What reached the system, in order. -/
def heardFrom (entries : List Entry) : List Receipt := entries.flatMap Entry.heard

@[simp] theorem printedBytes_append (entries later : List Entry) :
    printedBytes (entries ++ later) = printedBytes entries ++ printedBytes later :=
  List.flatMap_append

@[simp] theorem writtenBytes_append (entries later : List Entry) :
    writtenBytes (entries ++ later) = writtenBytes entries ++ writtenBytes later :=
  List.flatMap_append

@[simp] theorem heardFrom_append (entries later : List Entry) :
    heardFrom (entries ++ later) = heardFrom entries ++ heardFrom later :=
  List.flatMap_append

/-- The interpreter prints nothing of what a child does. -/
theorem printedBytes_of_isOf {pids : List Pid} {entries : List Entry}
    (h : ∀ e ∈ entries, ∃ pid ∈ pids, e.IsOf pid) : printedBytes entries = [] := by
  refine List.flatMap_eq_nil_iff.mpr fun e he => ?_
  obtain ⟨pid, -, hof⟩ := h e he
  exact hof.cases.2.1

theorem writtenBytes_of_isOf {pids : List Pid} {entries : List Entry}
    (h : ∀ e ∈ entries, ∃ pid ∈ pids, e.IsOf pid) : writtenBytes entries = [] := by
  refine List.flatMap_eq_nil_iff.mpr fun e he => ?_
  obtain ⟨pid, -, hof⟩ := h e he
  exact hof.cases.2.2.1

@[simp] theorem printedBytes_reaped (pids : List Pid) : printedBytes (pids.map .reaped) = [] := by
  simp [printedBytes, Entry.printing]

@[simp] theorem writtenBytes_reaped (pids : List Pid) : writtenBytes (pids.map .reaped) = [] := by
  simp [writtenBytes, Entry.writing]

@[simp] theorem heardFrom_reaped (pids : List Pid) : heardFrom (pids.map .reaped) = [] := by
  simp [heardFrom, Entry.heard]

/-! ## The buffer -/

/-- What an entry makes of the buffer: what is printed is put behind, what is written is taken from the
front, and a fork copies all of it. -/
def Entry.Changes : Entry → Bytes → Bytes → Prop
  | .printed bytes, b, b' => b' = b ++ bytes
  | .wrote _ bytes, b, b' => b = bytes ++ b'
  | .forked _ copy, b, b' => copy = b ∧ b' = b
  | _, b, b' => b' = b

/-- What one entry prints and writes is what it makes of the buffer. -/
theorem Entry.Changes.writing_append {e : Entry} {b b' : Bytes} (h : e.Changes b b') :
    e.writing ++ b' = b ++ e.printing := by
  cases e with
  | printed bytes => exact h
  | wrote handle bytes => exact h.symm.trans (List.append_nil b).symm
  | forked pid copy => exact h.2.trans (List.append_nil b).symm
  | complained => exact h.trans (List.append_nil b).symm
  | diagnosed => exact h.trans (List.append_nil b).symm
  | spoke => exact h.trans (List.append_nil b).symm
  | left => exact h.trans (List.append_nil b).symm
  | reaped => exact h.trans (List.append_nil b).symm

/-- The buffer before and after some entries. -/
inductive Buffered : Bytes → List Entry → Bytes → Prop where
  | nil (b : Bytes) : Buffered b [] b
  | cons {b b' b'' : Bytes} {e : Entry} {rest : List Entry} (first : e.Changes b b')
      (later : Buffered b' rest b'') : Buffered b (e :: rest) b''

namespace Buffered

variable {b b' b'' : Bytes} {entries later : List Entry}

theorem append (h : Buffered b entries b') (h' : Buffered b' later b'') :
    Buffered b (entries ++ later) b'' := by
  induction h with
  | nil => exact h'
  | cons first _ ih => exact .cons first (ih h')

/-- Between two parts of a chronicle there is a buffer. -/
theorem split (h : Buffered b (entries ++ later) b'') :
    ∃ b', Buffered b entries b' ∧ Buffered b' later b'' := by
  induction entries generalizing b with
  | nil => exact ⟨b, .nil b, h⟩
  | cons e rest ih =>
    cases h with
    | cons first hrest =>
      obtain ⟨b', hearlier, hlater⟩ := ih hrest
      exact ⟨b', .cons first hearlier, hlater⟩

/-- **What is printed is written once and in order**, but for what is still in the buffer. -/
theorem written_append (h : Buffered b entries b') :
    writtenBytes entries ++ b' = b ++ printedBytes entries := by
  induction h with
  | nil b => exact (List.append_nil b).symm
  | @cons b b' b'' e rest first _ ih =>
    change (e.writing ++ writtenBytes rest) ++ b'' = b ++ (e.printing ++ printedBytes rest)
    rw [List.append_assoc, ih, ← List.append_assoc, first.writing_append, List.append_assoc]

/-- What children do themselves leaves the buffer alone. -/
theorem of_isOf {pids : List Pid} (b : Bytes) (h : ∀ e ∈ entries, ∃ pid ∈ pids, e.IsOf pid) :
    Buffered b entries b := by
  induction entries with
  | nil => exact .nil b
  | cons e rest ih =>
    obtain ⟨pid, -, hof⟩ := h e List.mem_cons_self
    have hrest := ih fun other hother => h other (List.mem_cons_of_mem e hother)
    cases hof with
    | diagnosed handle message => exact .cons rfl hrest
    | spoke bytes => exact .cons rfl hrest

theorem of_reaped (b : Bytes) (pids : List Pid) : Buffered b (pids.map .reaped) b := by
  induction pids with
  | nil => exact .nil b
  | cons pid rest ih => exact .cons rfl ih

end Buffered

end LineShell
