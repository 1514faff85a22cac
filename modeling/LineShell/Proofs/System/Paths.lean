import LineShell.System.Files

/-!
# Paths in a tree of files

A path leads through directories to a name in the last of them. Where it leads does not change when a tree
grows: when a file holds something else, or a directory has one more name.

* `FileTree.nodeAt?`: the node that stands under a name in a directory.
* `FileTree.parentOf_eq_some`: the directory and the name that a path ends in.
* `FileTree.get?_set` and `FileTree.get?_add`: the nodes of a tree in which a node is another one, and of a
  tree with a new node.
* `FileTree.Grows`: what can be found in a tree can still be found in another one. So it is when a file
  holds something else (`FileTree.grows_set`) and when a node is added (`FileTree.grows_add`), and paths
  lead where they led (`FileTree.Grows.parentOf`).
-/

namespace LineShell

namespace FileTree

/-- Steps one after another succeed if each does. -/
theorem bind_eq_ok {α β : Type} {first : Except Errno α} {next : α → Except Errno β} {b : β} :
    first >>= next = .ok b ↔ ∃ a, first = .ok a ∧ next a = .ok b := by
  cases first with
  | error errno => simp [bind, Except.bind]
  | ok a => simp [bind, Except.bind]

/-! ## Names in directories -/

/-- The node that stands under a name in a directory. -/
def nodeAt? (t : FileTree) (n : Nat × Bytes) : Option Nat :=
  match t.get? n.1 with
  | some (.directory _ _ entries) => (entries.find? (·.1 == n.2)).map (·.2)
  | _ => none

/-- The node is a regular file. -/
def isFile (t : FileTree) (id : Nat) : Bool :=
  match t.get? id with
  | some (.file ..) => true
  | _ => false

theorem isFile_iff {t : FileTree} {id : Nat} :
    t.isFile id = true ↔ ∃ mode content, t.get? id = some (.file mode content) := by
  unfold isFile
  split
  · rename_i mode content hget
    exact ⟨fun _ => ⟨mode, content, hget⟩, fun _ => rfl⟩
  · rename_i hother
    refine ⟨fun h => absurd h (by simp), ?_⟩
    rintro ⟨mode, content, hget⟩
    exact absurd hget (hother mode content)

theorem isDirectory_iff {t : FileTree} {id : Nat} :
    t.isDirectory id = true ↔ ∃ mode parent entries, t.get? id = some (.directory mode parent entries) := by
  unfold isDirectory
  split
  · rename_i mode parent entries hget
    exact ⟨fun _ => ⟨mode, parent, entries, hget⟩, fun _ => rfl⟩
  · rename_i hother
    refine ⟨fun h => absurd h (by simp), ?_⟩
    rintro ⟨mode, parent, entries, hget⟩
    exact absurd hget (hother mode parent entries)

/-- A directory is no file. -/
theorem isFile_of_isDirectory {t : FileTree} {id : Nat} (h : t.isDirectory id = true) :
    t.isFile id = false := by
  obtain ⟨mode, parent, entries, hget⟩ := isDirectory_iff.mp h
  unfold isFile
  rw [hget]

/-- Where a name leads from the directory `id`, if it leads anywhere. -/
def step? (id parent : Nat) (entries : List (Bytes × Nat)) (name : Bytes) : Option Nat :=
  if name = dot then some id
  else if name = dotDot then some parent
  else if nameMax < name.length then none
  else (entries.find? (·.1 == name)).map (·.2)

/-- A name that leads somewhere still does when the directory has more names. -/
theorem step?_append {id parent next : Nat} {entries : List (Bytes × Nat)} {name : Bytes}
    (h : step? id parent entries name = some next) (more : List (Bytes × Nat)) :
    step? id parent (entries ++ more) name = some next := by
  unfold step? at h ⊢
  rw [List.find?_append]
  cases hfind : entries.find? (·.1 == name) with
  | none => grind
  | some found => grind

/-- A step is made from a directory that may be passed through. -/
theorem child_eq_ok {t : FileTree} {id next : Nat} {name : Bytes} :
    t.child id name = .ok next ↔
      ∃ mode parent entries, t.get? id = some (.directory mode parent entries) ∧
        t.allows id .execute = true ∧ step? id parent entries name = some next := by
  constructor
  · intro h
    unfold child at h
    split at h
    · rename_i mode parent entries hget
      by_cases hallowed : t.allows id .execute = true
      · refine ⟨mode, parent, entries, hget, hallowed, ?_⟩
        rw [hallowed] at h
        unfold step?
        cases hfind : entries.find? (·.1 == name) with
        | none => grind
        | some found => grind
      · simp [hallowed] at h
    · cases h
  · rintro ⟨mode, parent, entries, hget, hallowed, hstep⟩
    unfold child
    rw [hget]
    unfold step? at hstep
    simp only [hallowed]
    cases hfind : entries.find? (·.1 == name) with
    | none => grind
    | some found => grind

/-- Of all that keeps a step from being made only a missing name is told as such. -/
theorem child_eq_noEntry {t : FileTree} {directory : Nat} {name : Bytes}
    (h : t.child directory name = .error .noEntry) :
    t.isDirectory directory = true ∧ t.nodeAt? (directory, name) = none := by
  unfold child at h
  split at h
  · rename_i mode parent entries hget
    refine ⟨isDirectory_iff.mpr ⟨mode, parent, entries, hget⟩, ?_⟩
    unfold nodeAt?
    rw [hget]
    split at h
    · cases h
    split at h
    · cases h
    split at h
    · cases h
    split at h
    · cases h
    split at h
    · cases h
    · rename_i hfree
      simp only [hfree, Option.map_none]
  · cases h

/-- Another name than those for directories themselves leads to the node under it. -/
theorem nodeAt?_of_child {t : FileTree} {directory id : Nat} {name : Bytes} (hdot : name ≠ dot)
    (hdotDot : name ≠ dotDot) (h : t.child directory name = .ok id) :
    t.nodeAt? (directory, name) = some id := by
  obtain ⟨mode, parent, entries, hget, -, hstep⟩ := child_eq_ok.mp h
  unfold step? at hstep
  rw [if_neg hdot, if_neg hdotDot] at hstep
  unfold nodeAt?
  rw [hget]
  split at hstep
  · exact absurd hstep (by simp)
  · exact hstep

theorem parentOf_eq_some {t : FileTree} {path : Bytes} {n : Nat × Bytes} :
    t.parentOf path = .ok (some n) ↔
      checkPath path = .ok () ∧ ∃ above, namesOf path = above ++ [n.2] ∧
        t.walk (t.base path) above = .ok n.1 ∧ n.2 ≠ dot ∧ n.2 ≠ dotDot ∧ t.isDirectory n.1 = true := by
  unfold parentOf
  constructor
  · intro h
    obtain ⟨_, hcheck, h⟩ := bind_eq_ok.mp h
    split at h
    · cases h
    · rename_i last above hnames
      obtain ⟨directory, hwalk, h⟩ := bind_eq_ok.mp h
      split at h
      · obtain ⟨_, _, h⟩ := bind_eq_ok.mp h
        cases h
      · rename_i hproper
        split at h
        · obtain ⟨_, ⟨⟩, -⟩ := bind_eq_ok.mp h
        · rename_i hdirectory
          obtain rfl := Option.some.inj (Except.ok.inj h)
          have hproper' : last ≠ dot ∧ last ≠ dotDot := by simpa using hproper
          refine ⟨hcheck, above.reverse, ?_, hwalk, hproper'.1, hproper'.2, by simpa using hdirectory⟩
          rw [← List.reverse_reverse (namesOf path), hnames, List.reverse_cons]
  · rintro ⟨hcheck, above, hnames, hwalk, hdot, hdotDot, hdirectory⟩
    rw [hcheck, hnames, List.reverse_append, List.reverse_singleton, List.singleton_append]
    simp [bind, Except.bind, pure, Except.pure, hwalk, hdot, hdotDot, hdirectory]

/-! ## Looking at nodes -/

theorem lt_size_of_get? {t : FileTree} {id : Nat} {node : Node} (h : t.get? id = some node) :
    id < t.nodes.size := by
  obtain ⟨hlt, -⟩ := Array.getElem?_eq_some_iff.mp h
  exact hlt

theorem get?_set {t : FileTree} {id : Nat} {old : Node} (h : t.get? id = some old) (node : Node) (other : Nat) :
    (t.set id node).get? other = if other = id then some node else t.get? other := by
  unfold set get?
  rw [Array.getElem?_setIfInBounds]
  by_cases hother : other = id
  · rw [if_pos hother.symm, if_pos hother, if_pos (lt_size_of_get? h)]
  · rw [if_neg (Ne.symm hother), if_neg hother]

theorem get?_push (t : FileTree) (node : Node) (other : Nat) :
    (t.push node).2.get? other = if other = t.nodes.size then some node else t.get? other := by
  unfold push get?
  rw [Array.getElem?_push]

section

variable {t : FileTree} {directory mode parent : Nat} {entries : List (Bytes × Nat)}

/-- A new node is added by making it and then naming it in its directory. -/
theorem add_eq (h : t.get? directory = some (.directory mode parent entries)) (name : Bytes) (node : Node) :
    (t.push node).2.get? directory = some (.directory mode parent entries) ∧
      (t.add directory name node).2 =
        (t.push node).2.set directory (.directory mode parent (entries ++ [(name, t.nodes.size)])) := by
  have hdirectory : (t.push node).2.get? directory = some (.directory mode parent entries) := by
    rw [get?_push, if_neg (Nat.ne_of_lt (lt_size_of_get? h)), h]
  refine ⟨hdirectory, ?_⟩
  change (t.push node).2.link directory name t.nodes.size = _
  unfold link modifyEntries
  rw [hdirectory]

theorem get?_add (h : t.get? directory = some (.directory mode parent entries)) (name : Bytes) (node : Node)
    (other : Nat) :
    (t.add directory name node).2.get? other =
      if other = directory then some (.directory mode parent (entries ++ [(name, t.nodes.size)]))
      else if other = t.nodes.size then some node else t.get? other := by
  obtain ⟨hdirectory, hadd⟩ := add_eq h name node
  rw [hadd, get?_set hdirectory, get?_push]

theorem size_add (h : t.get? directory = some (.directory mode parent entries)) (name : Bytes) (node : Node) :
    (t.add directory name node).2.nodes.size = t.nodes.size + 1 := by
  obtain ⟨-, hadd⟩ := add_eq h name node
  rw [hadd]
  simp [set, push]

theorem current_add (h : t.get? directory = some (.directory mode parent entries)) (name : Bytes)
    (node : Node) : (t.add directory name node).2.current = t.current := by
  obtain ⟨-, hadd⟩ := add_eq h name node
  rw [hadd]
  rfl

end

/-! ## Trees that grow -/

/-- What can be found in a tree can still be found in another one. -/
structure Grows (t t' : FileTree) : Prop where
  current : t'.current = t.current
  child : ∀ id name next, t.child id name = .ok next → t'.child id name = .ok next
  isDirectory : ∀ id, t.isDirectory id = true → t'.isDirectory id = true

section

variable {t t' : FileTree}

theorem Grows.refl (t : FileTree) : t.Grows t :=
  ⟨rfl, fun _ _ _ h => h, fun _ h => h⟩

theorem Grows.walk (h : t.Grows t') {id last : Nat} {names : List Bytes}
    (hwalk : t.walk id names = .ok last) : t'.walk id names = .ok last := by
  unfold FileTree.walk at hwalk ⊢
  induction names generalizing id with
  | nil => exact hwalk
  | cons name rest ih =>
    rw [List.foldlM_cons] at hwalk ⊢
    obtain ⟨next, hchild, hrest⟩ := bind_eq_ok.mp hwalk
    exact bind_eq_ok.mpr ⟨next, h.child id name next hchild, ih hrest⟩

theorem Grows.parentOf (h : t.Grows t') {path : Bytes} {n : Nat × Bytes}
    (hparent : t.parentOf path = .ok (some n)) : t'.parentOf path = .ok (some n) := by
  obtain ⟨hcheck, above, hnames, hwalk, hdot, hdotDot, hdirectory⟩ := parentOf_eq_some.mp hparent
  have hbase : t'.base path = t.base path := by
    unfold base
    rw [h.current]
  refine parentOf_eq_some.mpr ⟨hcheck, above, hnames, ?_, hdot, hdotDot, h.isDirectory _ hdirectory⟩
  rw [hbase]
  exact h.walk hwalk

/-- A tree grows if its directories have only more names, and what may be done with them is the same. -/
theorem Grows.of_directories (hcurrent : t'.current = t.current)
    (h : ∀ id mode parent entries, t.get? id = some (.directory mode parent entries) →
      ∃ more, t'.get? id = some (.directory mode parent (entries ++ more))) : t.Grows t' := by
  refine ⟨hcurrent, fun id name next hchild => ?_, fun id hdirectory => ?_⟩
  · obtain ⟨mode, parent, entries, hget, hallowed, hstep⟩ := child_eq_ok.mp hchild
    obtain ⟨more, hmore⟩ := h id mode parent entries hget
    refine child_eq_ok.mpr ⟨mode, parent, entries ++ more, hmore, ?_, step?_append hstep more⟩
    unfold allows FileTree.mode at hallowed ⊢
    rw [hget] at hallowed
    rw [hmore]
    exact hallowed
  · obtain ⟨mode, parent, entries, hget⟩ := isDirectory_iff.mp hdirectory
    obtain ⟨more, hmore⟩ := h id mode parent entries hget
    exact isDirectory_iff.mpr ⟨mode, parent, entries ++ more, hmore⟩

/-- A tree grows when a file holds something else. -/
theorem grows_set {id mode : Nat} {content : Bytes} (h : t.get? id = some (.file mode content))
    (content' : Bytes) : t.Grows (t.set id (.file mode content')) := by
  refine .of_directories rfl fun other mode parent entries hget => ⟨[], ?_⟩
  have hne : other ≠ id := fun heq => by
    rw [heq, h] at hget
    exact absurd hget (by simp)
  rw [get?_set h, if_neg hne, List.append_nil, hget]

/-- A tree grows when a directory has one more name. -/
theorem grows_add {directory mode parent : Nat} {entries : List (Bytes × Nat)}
    (h : t.get? directory = some (.directory mode parent entries)) (name : Bytes) (node : Node) :
    t.Grows (t.add directory name node).2 := by
  refine .of_directories (current_add h name node) fun other mode' parent' entries' hget => ?_
  rw [get?_add h]
  by_cases hself : other = directory
  · rw [hself, h] at hget
    obtain ⟨rfl, rfl, rfl⟩ := Node.directory.inj (Option.some.inj hget)
    exact ⟨_, by rw [if_pos hself]⟩
  · refine ⟨[], ?_⟩
    rw [if_neg hself, if_neg (Nat.ne_of_lt (lt_size_of_get? hget)), List.append_nil, hget]

end

end FileTree

end LineShell
