import LineShell.Proofs.Kernel.Files
import LineShell.Proofs.System.Paths
import LineShell.Proofs.System.Pipes

/-!
# Regular files of the system held in memory

A regular file is known by the directory that it is in and its name there. As long as no file has two
names, opening one changes no other.

* `FileTree.Sound`: names stand for nodes that are there, and no file has two names.
* `FileTree.Opened`: what opening a file makes of a tree; it was there (`FileTree.opened_kept`,
  `FileTree.opened_emptied`) or it is new (`FileTree.opened_made`).
* `FileTree.openFor_opened`: this is what opening a file by its path comes to.
* `World.regularFiles`: the view of these files, and `Kernel.inMemory_opensFiles` that the system held in
  memory opens them as redirections trust it to.
-/

namespace LineShell

namespace FileTree

/-! ## Regular files -/

/-- What a regular file holds. -/
def content? (t : FileTree) (n : Nat × Bytes) : Option Bytes :=
  match (t.nodeAt? n).bind t.get? with
  | some (.file _ content) => some content
  | _ => none

/-- A name stands for a regular file, or for nothing. -/
def IsRegular (t : FileTree) (n : Nat × Bytes) : Prop :=
  ∀ id, t.nodeAt? n = some id → t.isFile id = true

/-- Names stand for nodes that are there, and no regular file has two names. -/
structure Sound (t : FileTree) : Prop where
  bounded : ∀ n id, t.nodeAt? n = some id → id < t.nodes.size
  one_name : ∀ n m id, t.isFile id = true → t.nodeAt? n = some id → t.nodeAt? m = some id → n = m

section

variable {t t' : FileTree} {n : Nat × Bytes} {id mode : Nat} {content : Bytes}

theorem content?_of_node (h : t.nodeAt? n = some id) (hget : t.get? id = some (.file mode content)) :
    t.content? n = some content := by
  unfold content?
  rw [h, Option.bind_some, hget]

theorem content?_of_no_node (h : t.nodeAt? n = none) : t.content? n = none := by
  unfold content?
  rw [h]
  rfl

/-- What a name stands for decides what is held there. -/
theorem content?_congr (hnode : t'.nodeAt? n = t.nodeAt? n)
    (hkept : ∀ other, t.nodeAt? n = some other →
      t'.get? other = t.get? other ∨ t.isFile other = false ∧ t'.isFile other = false) :
    t'.content? n = t.content? n := by
  have hnothing {u : FileTree} {other : Nat} (hn : u.nodeAt? n = some other)
      (hfile : u.isFile other = false) : u.content? n = none := by
    unfold content?
    rw [hn, Option.bind_some]
    split
    · rename_i mode content hget
      rw [isFile_iff.mpr ⟨mode, content, hget⟩] at hfile
      exact absurd hfile (by simp)
    · rfl
  cases hthere : t.nodeAt? n with
  | none => rw [content?_of_no_node hthere, content?_of_no_node (hnode.trans hthere)]
  | some other =>
    rcases hkept other hthere with hget | ⟨hfile, hfile'⟩
    · unfold content?
      rw [hnode, hthere, Option.bind_some, Option.bind_some, hget]
    · rw [hnothing hthere hfile, hnothing (hnode.trans hthere) hfile']

/-! ## Files that hold something else -/

theorem nodeAt?_set (h : t.get? id = some (.file mode content)) (content' : Bytes) (m : Nat × Bytes) :
    (t.set id (.file mode content')).nodeAt? m = t.nodeAt? m := by
  unfold nodeAt?
  rw [get?_set h]
  by_cases hm : m.1 = id
  · rw [if_pos hm, hm, h]
  · rw [if_neg hm]

theorem isFile_set (h : t.get? id = some (.file mode content)) (content' : Bytes) (other : Nat) :
    (t.set id (.file mode content')).isFile other = t.isFile other := by
  unfold isFile
  rw [get?_set h]
  by_cases hother : other = id
  · rw [if_pos hother, hother, h]
  · rw [if_neg hother]

theorem Sound.set (hsound : t.Sound) (h : t.get? id = some (.file mode content)) (content' : Bytes) :
    (t.set id (.file mode content')).Sound := by
  refine ⟨fun m other hm => ?_, fun m m' other hfile hm hm' => ?_⟩
  · rw [nodeAt?_set h] at hm
    unfold FileTree.set
    rw [Array.size_setIfInBounds]
    exact hsound.bounded m other hm
  · rw [nodeAt?_set h] at hm hm'
    rw [isFile_set h] at hfile
    exact hsound.one_name m m' other hfile hm hm'

/-! ## New files -/

variable {directory : Nat} {name : Bytes}

theorem nodeAt?_directory {parent : Nat} {entries : List (Bytes × Nat)}
    (hget : t.get? directory = some (.directory mode parent entries)) (name : Bytes) :
    t.nodeAt? (directory, name) = (entries.find? (·.1 == name)).map (·.2) := by
  unfold nodeAt?
  rw [hget]

/-- A new file is at the end, and stands under its name. -/
theorem nodeAt?_add (hdirectory : t.isDirectory directory = true)
    (hnone : t.nodeAt? (directory, name) = none) (mode : Nat) (m : Nat × Bytes) :
    (t.add directory name (.file mode [])).2.nodeAt? m =
      if m = (directory, name) then some t.nodes.size else t.nodeAt? m := by
  obtain ⟨directoryMode, parent, entries, hget⟩ := isDirectory_iff.mp hdirectory
  have hadd := get?_add hget name (.file mode [])
  obtain ⟨place, other⟩ := m
  by_cases hplace : place = directory
  · subst hplace
    have hnames := hadd place
    rw [if_pos rfl] at hnames
    rw [nodeAt?_directory hget, Option.map_eq_none_iff] at hnone
    rw [nodeAt?_directory hnames, nodeAt?_directory hget, List.find?_append]
    by_cases hname : name = other
    · subst hname
      simp [hnone]
    · have hother : (place, other) ≠ (place, name) := fun heq => hname (Prod.mk.inj heq).2.symm
      simp [hname, hother]
  · have hother : (place, other) ≠ (directory, name) := fun heq => hplace (Prod.mk.inj heq).1
    rw [if_neg hother]
    unfold nodeAt?
    rw [hadd, if_neg hplace]
    by_cases hfresh : place = t.nodes.size
    · have hnothing : t.get? place = none := by
        unfold get?
        rw [hfresh]
        exact Array.getElem?_eq_none (Nat.le_refl _)
      rw [if_pos hfresh, hnothing]
    · rw [if_neg hfresh]

theorem get?_add_new (hdirectory : t.isDirectory directory = true) (name : Bytes) (mode : Nat) :
    (t.add directory name (.file mode [])).2.get? t.nodes.size = some (.file mode []) := by
  obtain ⟨_, _, _, hget⟩ := isDirectory_iff.mp hdirectory
  rw [get?_add hget, if_neg (Nat.ne_of_gt (lt_size_of_get? hget)), if_pos rfl]

/-- The nodes that were there before are files if they were. -/
theorem isFile_add (hdirectory : t.isDirectory directory = true) (mode : Nat) {other : Nat}
    (hother : other < t.nodes.size) :
    (t.add directory name (.file mode [])).2.isFile other = t.isFile other := by
  obtain ⟨_, _, _, hget⟩ := isDirectory_iff.mp hdirectory
  unfold isFile
  rw [get?_add hget]
  by_cases hself : other = directory
  · rw [if_pos hself, hself, hget]
  · rw [if_neg hself, if_neg (Nat.ne_of_lt hother)]

theorem Sound.add (hsound : t.Sound) (hdirectory : t.isDirectory directory = true)
    (hnone : t.nodeAt? (directory, name) = none) (mode : Nat) :
    (t.add directory name (.file mode [])).2.Sound := by
  have hnode := nodeAt?_add hdirectory hnone mode
  refine ⟨fun m other hm => ?_, fun m m' other hfile hm hm' => ?_⟩
  · obtain ⟨_, _, _, hget⟩ := isDirectory_iff.mp hdirectory
    rw [size_add hget]
    rw [hnode] at hm
    split at hm
    · obtain rfl := Option.some.inj hm
      exact Nat.lt_succ_self _
    · exact Nat.lt_succ_of_lt (hsound.bounded m other hm)
  · -- before, no name stood for a node that is not there yet
    have hbound (other : Nat × Bytes) : t.nodeAt? other ≠ some t.nodes.size := fun h =>
      Nat.lt_irrefl _ (hsound.bounded other _ h)
    rw [hnode] at hm hm'
    by_cases heq : m = (directory, name)
    · by_cases heq' : m' = (directory, name)
      · rw [heq, heq']
      · rw [if_pos heq] at hm
        rw [if_neg heq', ← Option.some.inj hm] at hm'
        exact absurd hm' (hbound m')
    · by_cases heq' : m' = (directory, name)
      · rw [if_pos heq'] at hm'
        rw [if_neg heq, ← Option.some.inj hm'] at hm
        exact absurd hm (hbound m)
      · rw [if_neg heq] at hm
        rw [if_neg heq'] at hm'
        rw [isFile_add hdirectory mode (hsound.bounded m other hm)] at hfile
        exact hsound.one_name m m' other hfile hm hm'

end

/-! ## Opening a file -/

/-- What opening the file `n`, whose node is `id` then, makes of a tree. -/
structure Opened (direction : Direction) (n : Nat × Bytes) (t : FileTree) (id : Nat) (t' : FileTree) :
    Prop where
  sound : t'.Sound
  grows : t.Grows t'
  node : ∀ m other, t.nodeAt? m = some other → t'.nodeAt? m = some other
  isFile : ∀ other, t.isFile other = true → t'.isFile other = true
  regular : ∀ m, t.IsRegular m → t'.IsRegular m
  node_self : t'.nodeAt? n = some id
  isFile_self : t'.isFile id = true
  present : direction = .input → t.content? n ≠ none
  content_self : t'.content? n = direction.opened (t.content? n)
  content_other : ∀ m, m ≠ n → t'.content? m = t.content? m

section

variable {t : FileTree} {n : Nat × Bytes} {id : Nat}

/-- A file that is only looked at stays as it is. -/
theorem opened_kept {direction : Direction} (hsound : t.Sound) (hregular : t.IsRegular n)
    (hnode : t.nodeAt? n = some id) (hdirection : direction ≠ .output) : Opened direction n t id t := by
  obtain ⟨mode, content, hget⟩ := isFile_iff.mp (hregular id hnode)
  have hcontent := content?_of_node hnode hget
  exact {
    sound := hsound
    grows := .refl t
    node := fun _ _ h => h
    isFile := fun _ h => h
    regular := fun _ h => h
    node_self := hnode
    isFile_self := hregular id hnode
    present := fun _ => by simp [hcontent]
    content_self := by
      rw [hcontent]
      cases direction with
      | input => rfl
      | output => exact absurd rfl hdirection
      | append => rfl
    content_other := fun _ _ => rfl }

/-- A file that is there is emptied. -/
theorem opened_emptied {mode : Nat} {content : Bytes} (hsound : t.Sound) (hnode : t.nodeAt? n = some id)
    (hget : t.get? id = some (.file mode content)) :
    Opened .output n t id (t.set id (.file mode [])) := by
  have hnodes := nodeAt?_set hget []
  have hfiles := isFile_set hget []
  have hfile : t.isFile id = true := isFile_iff.mpr ⟨mode, content, hget⟩
  exact {
    sound := hsound.set hget []
    grows := grows_set hget []
    node := fun m other hm => (hnodes m).trans hm
    isFile := fun other hother => (hfiles other).trans hother
    regular := fun m hm other hother => by
      rw [hnodes] at hother
      rw [hfiles]
      exact hm other hother
    node_self := (hnodes n).trans hnode
    isFile_self := (hfiles id).trans hfile
    present := fun h => absurd h (by simp)
    content_self := content?_of_node ((hnodes n).trans hnode) ((get?_set hget _ id).trans (if_pos rfl))
    content_other := fun m hm => by
      refine content?_congr (hnodes m) fun other hother => Or.inl ?_
      have hne : other ≠ id := fun heq => by
        subst heq
        exact hm (hsound.one_name m n other hfile hother hnode)
      rw [get?_set hget, if_neg hne] }

/-- A file that is not there is made. -/
theorem opened_made {direction : Direction} {directory : Nat} {name : Bytes} (hsound : t.Sound)
    (hdirectory : t.isDirectory directory = true) (hnone : t.nodeAt? (directory, name) = none)
    (mode : Nat) (hdirection : direction ≠ .input) :
    Opened direction (directory, name) t t.nodes.size (t.add directory name (.file mode [])).2 := by
  have hnode := nodeAt?_add hdirectory hnone mode
  have hself := hnode (directory, name)
  rw [if_pos rfl] at hself
  have hother (m : Nat × Bytes) (hm : m ≠ (directory, name)) := (hnode m).trans (if_neg hm)
  have hnew := get?_add_new hdirectory name mode
  have hfile := isFile_iff.mpr ⟨mode, [], hnew⟩
  obtain ⟨_, _, _, hget⟩ := isDirectory_iff.mp hdirectory
  exact {
    sound := hsound.add hdirectory hnone mode
    grows := grows_add hget name _
    node := fun m other hm => by
      rw [hother m fun heq => by simp [heq, hnone] at hm]
      exact hm
    isFile := fun other hisFile => by
      obtain ⟨_, _, hthere⟩ := isFile_iff.mp hisFile
      rw [isFile_add hdirectory mode (lt_size_of_get? hthere)]
      exact hisFile
    regular := fun m hm other hthere => by
      rw [hnode] at hthere
      split at hthere
      · obtain rfl := Option.some.inj hthere
        exact hfile
      · rw [isFile_add hdirectory mode (hsound.bounded m other hthere)]
        exact hm other hthere
    node_self := hself
    isFile_self := hfile
    present := fun h => absurd h hdirection
    content_self := by
      rw [content?_of_node hself hnew, content?_of_no_node hnone]
      cases direction with
      | input => exact absurd rfl hdirection
      | output => rfl
      | append => rfl
    content_other := fun m hm => by
      refine content?_congr (hother m hm) fun other hthere => ?_
      have hlt := hsound.bounded m other hthere
      by_cases hdir : other = directory
      · subst hdir
        have hnot := isFile_of_isDirectory hdirectory
        exact Or.inr ⟨hnot, (isFile_add hdirectory mode hlt).trans hnot⟩
      · left
        rw [get?_add hget, if_neg hdir, if_neg (Nat.ne_of_lt hlt)] }

end

/-! ## Opening a file by its path -/

/-- The name of a regular file that a path leads to, whether the file is there or not. -/
def regular? (t : FileTree) (path : Bytes) : Option (Nat × Bytes) :=
  match t.parentOf path with
  | .ok (some n) => if (t.nodeAt? n).all t.isFile then some n else none
  | _ => none

theorem regular?_eq_some {t : FileTree} {path : Bytes} {n : Nat × Bytes} :
    t.regular? path = some n ↔ t.parentOf path = .ok (some n) ∧ t.IsRegular n := by
  have hall (m : Nat × Bytes) : (t.nodeAt? m).all t.isFile = true ↔ t.IsRegular m := by
    unfold IsRegular
    cases t.nodeAt? m <;> simp
  unfold regular?
  split
  · rename_i m hparent
    rw [hparent]
    by_cases hm : t.IsRegular m
    · rw [if_pos ((hall m).mpr hm)]
      constructor
      · rintro ⟨⟩
        exact ⟨rfl, hm⟩
      · rintro ⟨⟨⟩, -⟩
        rfl
    · rw [if_neg fun h => hm ((hall m).mp h)]
      constructor
      · intro h
        exact absurd h (by simp)
      · rintro ⟨⟨⟩, hm'⟩
        exact absurd hm' hm
  · rename_i hother
    constructor
    · intro h
      exact absurd h (by simp)
    · rintro ⟨hparent, -⟩
      exact absurd hparent (hother n)

section

variable {t t' : FileTree} {path : Bytes} {n : Nat × Bytes} {id : Nat}

/-- A path that is looked up leads to the node of its last name. -/
theorem nodeAt?_of_lookup (hparent : t.parentOf path = .ok (some n)) (h : t.lookup path = .ok id) :
    t.nodeAt? n = some id := by
  obtain ⟨-, above, hnames, hwalk, hdot, hdotDot, -⟩ := parentOf_eq_some.mp hparent
  unfold lookup at h
  obtain ⟨-, -, h⟩ := bind_eq_ok.mp h
  obtain ⟨last, hlast, h⟩ := bind_eq_ok.mp h
  obtain rfl : last = id := by
    split at h
    · obtain ⟨_, ⟨⟩, -⟩ := bind_eq_ok.mp h
    · exact Except.ok.inj h
  unfold walk at hlast hwalk
  rw [hnames, List.foldlM_append, hwalk] at hlast
  obtain ⟨_, ⟨⟩, hlast⟩ := bind_eq_ok.mp hlast
  rw [List.foldlM_cons] at hlast
  obtain ⟨_, hchild, ⟨⟩⟩ := bind_eq_ok.mp hlast
  exact nodeAt?_of_child hdot hdotDot hchild

theorem openForReading_opened (hsound : t.Sound) (hnamed : t.regular? path = some n)
    (h : t.openForReading path = .ok id) : Opened .input n t id t := by
  obtain ⟨hparent, hregular⟩ := regular?_eq_some.mp hnamed
  unfold openForReading at h
  obtain ⟨found, hlookup, h⟩ := bind_eq_ok.mp h
  obtain ⟨-, -, h⟩ := bind_eq_ok.mp h
  obtain rfl : found = id := by
    split at h
    · cases h
    · exact Except.ok.inj h
  exact opened_kept hsound hregular (nodeAt?_of_lookup hparent hlookup) (by simp)

theorem openForWriting_opened (hsound : t.Sound) (hnamed : t.regular? path = some n) {mode : Nat}
    {empty : Bool} (h : t.openForWriting mode empty path = .ok (id, t')) :
    Opened (if empty then .output else .append) n t id t' := by
  obtain ⟨hparent, hregular⟩ := regular?_eq_some.mp hnamed
  obtain ⟨-, -, -, -, hdot, hdotDot, -⟩ := parentOf_eq_some.mp hparent
  unfold openForWriting at h
  rw [hparent] at h
  obtain ⟨_, ⟨⟩, h⟩ := bind_eq_ok.mp h
  obtain ⟨directory, name⟩ := n
  simp only at h
  split at h
  · obtain ⟨_, ⟨⟩, -⟩ := bind_eq_ok.mp h
  obtain ⟨place, hplace, h⟩ := bind_eq_ok.mp h
  unfold placeIn at hplace
  cases hchild : t.child directory name with
  | ok found =>
    -- the name stands for a file
    rw [hchild] at hplace
    obtain rfl := Except.ok.inj hplace
    have hnode := nodeAt?_of_child hdot hdotDot hchild
    obtain ⟨held, content, hget⟩ := isFile_iff.mp (hregular found hnode)
    simp only at h
    split at h
    · obtain ⟨_, ⟨⟩, -⟩ := bind_eq_ok.mp h
    obtain ⟨-, -, h⟩ := bind_eq_ok.mp h
    rw [hget] at h
    obtain ⟨rfl, rfl⟩ := Prod.mk.inj (Except.ok.inj h)
    cases empty with
    | true => exact opened_emptied hsound hnode hget
    | false => exact opened_kept hsound hregular hnode (by simp)
  | error errno =>
    rw [hchild] at hplace
    simp only at hplace
    split at hplace
    · -- the name is free
      rename_i hnoEntry
      subst hnoEntry
      obtain rfl := Except.ok.inj hplace
      obtain ⟨hdirectory, hnone⟩ := child_eq_noEntry hchild
      simp only at h
      obtain ⟨-, -, h⟩ := bind_eq_ok.mp h
      obtain ⟨rfl, rfl⟩ := Prod.mk.inj (Except.ok.inj h)
      cases empty with
      | true => exact opened_made hsound hdirectory hnone _ (by simp)
      | false => exact opened_made hsound hdirectory hnone _ (by simp)
    · cases hplace

theorem openFor_opened (hsound : t.Sound) (hnamed : t.regular? path = some n) {direction : Direction}
    {mode : Nat} (h : t.openFor direction path mode = .ok (id, t')) : Opened direction n t id t' := by
  cases direction with
  | input =>
    change (t.openForReading path).map _ = _ at h
    cases hread : t.openForReading path with
    | error errno => rw [hread] at h; exact absurd h (by simp [Except.map])
    | ok found =>
      rw [hread] at h
      obtain ⟨rfl, rfl⟩ := Prod.mk.inj (Except.ok.inj h)
      exact openForReading_opened hsound hnamed hread
  | output => exact openForWriting_opened hsound hnamed h
  | append => exact openForWriting_opened hsound hnamed h

end

/-- One directory with one file in it. -/
theorem sound_of_one_file (mode fileMode current mask : Nat) (name content : Bytes) :
    Sound ⟨#[.directory mode 0 [(name, 1)], .file fileMode content], current, mask⟩ := by
  have hnode (n : Nat × Bytes) (id : Nat)
      (h : nodeAt? ⟨#[.directory mode 0 [(name, 1)], .file fileMode content], current, mask⟩ n = some id) :
      n = (0, name) ∧ id = 1 := by
    obtain ⟨directory, other⟩ := n
    match directory with
    | 0 =>
      rw [nodeAt?_directory rfl] at h
      by_cases hname : name = other
      · subst hname
        exact ⟨rfl, by simpa using h.symm⟩
      · exact absurd h (by simp [hname])
    | 1 => cases h
    | _ + 2 => cases h
  refine ⟨fun n id h => ?_, fun n m id _ h h' => (hnode n id h).1.trans (hnode m id h').1.symm⟩
  rw [(hnode n id h).2]
  exact Nat.lt_succ_self 1

end FileTree

/-! ## The system and the kernel -/

namespace System

/-- A handle leads to an open file of a name, which was opened in a direction. -/
def Leads (s : System) (handle : Handle) (n : Nat × Bytes) (direction : Direction) : Prop :=
  ∃ file id position, handle = .file file ∧ s.opened[file]? = some (.node id position direction) ∧
    s.files.nodeAt? n = some id ∧ s.files.isFile id = true

section

variable {s s' : System} {t : Table} {direction : Direction} {path : Bytes} {mode : Nat} {n : Nat × Bytes}
  {handle : Handle}

/-- Opening a file is opening it in the tree, and one more open file. -/
theorem openFile_opened (hsound : s.files.Sound) (hnamed : s.files.regular? path = some n)
    (h : s.openFile t direction path mode = .ok (handle, s')) :
    ∃ id, FileTree.Opened direction n s.files id s'.files ∧ handle = .file s.opened.size ∧
      s'.opened = s.opened.push (.node id 0 direction) := by
  unfold openFile at h
  obtain ⟨⟨id, files⟩, hfor, h⟩ := FileTree.bind_eq_ok.mp h
  have hopened := FileTree.openFor_opened hsound hnamed hfor
  obtain ⟨held, content, hget⟩ := FileTree.isFile_iff.mp hopened.isFile_self
  simp only [hget] at h
  obtain ⟨rfl, rfl⟩ := Prod.mk.inj (Except.ok.inj h)
  exact ⟨id, hopened, rfl, rfl⟩

/-- What is open stays open, and what was opened leads to its file. -/
theorem openFile_leads (hsound : s.files.Sound) (hnamed : s.files.regular? path = some n)
    (h : s.openFile t direction path mode = .ok (handle, s')) :
    s'.Leads handle n direction ∧
      ∀ other m direction', s.Leads other m direction' → s'.Leads other m direction' := by
  obtain ⟨id, hopened, rfl, hpush⟩ := openFile_opened hsound hnamed h
  constructor
  · refine ⟨s.opened.size, id, 0, rfl, ?_, hopened.node_self, hopened.isFile_self⟩
    rw [hpush, Array.getElem?_push_size]
  · rintro other m direction' ⟨file, node, position, hother, hfile, hnode, hisFile⟩
    refine ⟨file, node, position, hother, ?_, hopened.node m node hnode, hopened.isFile node hisFile⟩
    obtain ⟨hlt, -⟩ := Array.getElem?_eq_some_iff.mp hfile
    rw [hpush, Array.getElem?_push_lt hlt, ← hfile, Array.getElem?_eq_getElem hlt]

end

end System

/-- The regular files of a world, each known by its name in its directory. -/
def World.regularFiles : FileView World (Nat × Bytes) where
  Sound w := w.system.files.Sound
  named? w path := w.system.files.regular? (Utf8.encode path)
  content? w := w.system.files.content?
  Leads w := w.system.Leads

/-- **The system held in memory opens files** as redirections trust it to. -/
theorem Kernel.inMemory_opensFiles : inMemory.OpensFiles World.regularFiles := by
  intro p direction path w handle w' n hsound hnamed h
  have hopen := inMemory_openFile h
  obtain ⟨id, hopened, -, -⟩ := System.openFile_opened hsound hnamed hopen
  obtain ⟨hleads, hkept⟩ := System.openFile_leads hsound hnamed hopen
  exact {
    sound := hopened.sound
    named := fun other m hother => by
      obtain ⟨hparent, hregular⟩ := FileTree.regular?_eq_some.mp hother
      exact FileTree.regular?_eq_some.mpr ⟨hopened.grows.parentOf hparent, hopened.regular m hregular⟩
    present := hopened.present
    content_self := hopened.content_self
    content_other := hopened.content_other
    leads := hleads
    kept := hkept }

end LineShell
