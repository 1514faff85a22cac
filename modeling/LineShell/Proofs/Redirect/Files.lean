import LineShell.Proofs.Redirect.Apply
import LineShell.Proofs.System.Files

/-!
# What redirections do to files

A redirection creates or empties the file it opens, or leaves it as it is, also where a later one takes
its descriptor.

* `Direction.foldl_opened`: what a file holds after it was opened time and again.
* `FileView.reopened`: what files hold after some redirections opened theirs; `Kernel.Opens.files` says that
  this is what they come to.
* `Redirect.applyAll_files`: so do redirections that succeed. Of the descriptors only those of their
  directions change, and lead to the file that was opened last.
-/

namespace LineShell

variable {σ : Type u} {N : Type v}

/-! ## Opening files in order -/

/-- A file that was opened in several directions is empty if it was emptied once, and holds what it held
before if it was not; it is there unless it was opened for reading only. -/
theorem Direction.foldl_opened (directions : List Direction) (content : Option Bytes) :
    directions.foldl (fun content direction => direction.opened content) content =
      if .output ∈ directions then some []
      else if .append ∈ directions then some (content.getD [])
      else content := by
  induction directions generalizing content with
  | nil => simp
  | cons direction rest ih =>
    rw [List.foldl_cons, ih]
    cases direction with
    | input => simp [opened]
    | output => simp [opened]
    | append => simp [opened]

namespace FileView

variable [DecidableEq N]

/-- The directions in which some redirections open a file, in order. -/
def directionsOf (view : FileView σ N) (s : σ) (redirects : List Redirect) (n : N) : List Direction :=
  (redirects.filter fun r => view.named? s r.target = some n).map (·.direction)

/-- What files hold after redirections opened theirs, one after another. -/
def reopened (view : FileView σ N) (s : σ) (redirects : List Redirect) (n : N) : Option Bytes :=
  (view.directionsOf s redirects n).foldl (fun content direction => direction.opened content)
    (view.content? s n)

variable {view : FileView σ N} {s : σ} {redirects : List Redirect} {n : N}

theorem mem_directionsOf {direction : Direction} :
    direction ∈ view.directionsOf s redirects n ↔
      ∃ r ∈ redirects, r.direction = direction ∧ view.named? s r.target = some n := by
  unfold directionsOf
  simp only [List.mem_map, List.mem_filter, decide_eq_true_eq]
  constructor
  · rintro ⟨r, ⟨hmem, hnamed⟩, hdirection⟩
    exact ⟨r, hmem, hdirection, hnamed⟩
  · rintro ⟨r, hmem, hdirection, hnamed⟩
    exact ⟨r, ⟨hmem, hnamed⟩, hdirection⟩

theorem reopened_of_output (h : ∃ r ∈ redirects, r.direction = .output ∧ view.named? s r.target = some n) :
    view.reopened s redirects n = some [] := by
  rw [reopened, Direction.foldl_opened, if_pos (mem_directionsOf.mpr h)]

theorem reopened_of_append (h : ∃ r ∈ redirects, r.direction = .append ∧ view.named? s r.target = some n)
    (hkept : ∀ r ∈ redirects, r.direction = .output → view.named? s r.target ≠ some n) :
    view.reopened s redirects n = some ((view.content? s n).getD []) := by
  have hnot : ¬ .output ∈ view.directionsOf s redirects n := fun hmem => by
    obtain ⟨r, hr, hdirection, hnamed⟩ := mem_directionsOf.mp hmem
    exact hkept r hr hdirection hnamed
  rw [reopened, Direction.foldl_opened, if_neg hnot, if_pos (mem_directionsOf.mpr h)]

theorem reopened_of_input
    (h : ∀ r ∈ redirects, view.named? s r.target = some n → r.direction = .input) :
    view.reopened s redirects n = view.content? s n := by
  have hnot (direction : Direction) (hne : direction ≠ .input) :
      ¬ direction ∈ view.directionsOf s redirects n := fun hmem => by
    obtain ⟨r, hr, hdirection, hnamed⟩ := mem_directionsOf.mp hmem
    exact hne (hdirection.symm.trans (h r hr hnamed))
  rw [reopened, Direction.foldl_opened, if_neg (hnot _ (by simp)), if_neg (hnot _ (by simp))]

/-- A file is there after redirections if it was there before or one of them makes it. -/
theorem reopened_ne_none (h : view.reopened s redirects n ≠ none) :
    view.content? s n ≠ none ∨
      ∃ r ∈ redirects, r.direction ≠ .input ∧ view.named? s r.target = some n := by
  by_cases hall : ∀ r ∈ redirects, view.named? s r.target = some n → r.direction = .input
  · rw [reopened_of_input hall] at h
    exact Or.inl h
  · right
    obtain ⟨r, hr⟩ := Classical.not_forall.mp hall
    obtain ⟨hmem, hr⟩ := Classical.not_imp.mp hr
    obtain ⟨hnamed, hdirection⟩ := Classical.not_imp.mp hr
    exact ⟨r, hmem, hdirection, hnamed⟩

end FileView

section

variable [DecidableEq N] {k : Kernel σ} {view : FileView σ N}

/-- Files that have names keep them when one of them is opened. -/
theorem FileView.Opened.directionsOf {direction : Direction} {n : N} {s between : σ} {handle : Handle}
    {redirects : List Redirect} (h : view.Opened direction n s handle between)
    (hnamed : ∀ r ∈ redirects, view.named? s r.target ≠ none) :
    view.directionsOf between redirects = view.directionsOf s redirects := by
  funext m
  unfold FileView.directionsOf
  congr 1
  refine List.filter_congr fun r hr => ?_
  obtain ⟨file, hfile⟩ := Option.ne_none_iff_exists'.mp (hnamed r hr)
  rw [h.named r.target file hfile, hfile]

/-- One file is opened, and then others. -/
theorem FileView.Opened.reopened {r : Redirect} {n : N} {s between : σ} {handle : Handle}
    {rest : List Redirect} (h : view.Opened r.direction n s handle between)
    (hr : view.named? s r.target = some n) (hnamed : ∀ r ∈ rest, view.named? s r.target ≠ none) :
    view.reopened between rest = view.reopened s (r :: rest) := by
  funext m
  unfold FileView.reopened
  rw [h.directionsOf hnamed]
  by_cases hm : m = n
  · subst hm
    have hfirst : view.directionsOf s (r :: rest) m = r.direction :: view.directionsOf s rest m := by
      unfold FileView.directionsOf
      rw [List.filter_cons_of_pos (by simpa using hr), List.map_cons]
    rw [hfirst, List.foldl_cons, h.content_self]
  · have hfirst : view.directionsOf s (r :: rest) m = view.directionsOf s rest m := by
      unfold FileView.directionsOf
      have hother : ¬ view.named? s r.target = some m := fun hsome => by
        rw [hr] at hsome
        exact hm (Option.some.inj hsome).symm
      rw [List.filter_cons_of_neg (by simpa using hother)]
    rw [hfirst, h.content_other m hm]

/-- **Files opened in order hold what that makes of them.** Each handle leads to the file that its
redirection names, and a file to be read is there when its turn comes. -/
theorem Kernel.Opens.files (hk : k.OpensFiles view) {openings : List Opening} {s s' : σ}
    (h : k.Opens openings s s') (hsound : view.Sound s)
    (hnamed : ∀ r ∈ openings.map (·.redirect), view.named? s r.target ≠ none) :
    view.Sound s' ∧
      (∀ other n direction, view.Leads s other n direction → view.Leads s' other n direction) ∧
      (∀ o ∈ openings, ∃ n, view.named? s o.redirect.target = some n ∧
        view.Leads s' o.handle n o.redirect.direction) ∧
      view.content? s' = view.reopened s (openings.map (·.redirect)) ∧
      ∀ before r after n, openings.map (·.redirect) = before ++ r :: after → r.direction = .input →
        view.named? s r.target = some n → view.reopened s before n ≠ none := by
  induction h with
  | nil s =>
    refine ⟨hsound, fun other n direction hleads => hleads, by simp, rfl, ?_⟩
    intro before r after n hsplit
    exact absurd hsplit (by simp)
  | @cons o rest p s between s' hfile hrest ih =>
    rw [List.map_cons] at hnamed
    obtain ⟨hfirst, hlater⟩ := List.forall_mem_cons.mp hnamed
    obtain ⟨file, hname⟩ := Option.ne_none_iff_exists'.mp hfirst
    have hopened := hk hsound hname hfile
    have hlater' : ∀ r ∈ rest.map (·.redirect), view.named? between r.target ≠ none := by
      intro r hr
      obtain ⟨other, hother⟩ := Option.ne_none_iff_exists'.mp (hlater r hr)
      rw [hopened.named r.target other hother]
      simp
    obtain ⟨hsound', hkept, hleads, hcontent, hpresent⟩ := ih hopened.sound hlater'
    refine ⟨hsound', ?_, ?_, ?_, ?_⟩
    · intro other n direction hother
      exact hkept other n direction (hopened.kept other n direction hother)
    · intro other hmem
      rcases List.mem_cons.mp hmem with rfl | hmem
      · exact ⟨file, hname, hkept _ _ _ hopened.leads⟩
      · obtain ⟨n, hn, hleadsTo⟩ := hleads other hmem
        obtain ⟨m, hm⟩ := Option.ne_none_iff_exists'.mp (hlater _ (List.mem_map_of_mem hmem))
        rw [hopened.named _ m hm] at hn
        exact ⟨n, hm.trans hn, hleadsTo⟩
    · rw [hcontent, hopened.reopened hname hlater, List.map_cons]
    · intro before r after n hsplit hinput hn
      rw [List.map_cons] at hsplit
      cases before with
      | nil =>
        obtain ⟨rfl, -⟩ := List.cons.inj hsplit
        rw [hname] at hn
        obtain rfl := Option.some.inj hn
        exact hopened.present hinput
      | cons first before =>
        obtain ⟨rfl, hsplit'⟩ := List.cons.inj hsplit
        have hbefore : ∀ r ∈ before, view.named? s r.target ≠ none := fun r hr =>
          hlater r (hsplit' ▸ List.mem_append_left _ hr)
        rw [← hopened.reopened hname hbefore]
        exact hpresent before r after n hsplit' hinput (hopened.named _ _ hn)

end

/-! ## Carrying redirections out -/

/-- **What redirections that succeed come to.** The targets name regular files, or places for them.

Each redirection has opened its file, and the handle leads there in its direction. A descriptor has the
handle of the last file opened for it, kept across program starts; one that none was opened for, and the
rest of the process, is as it was.

Each file holds what opening it in these directions, one after another, makes of what it held: it is there
and empty if one of them was for output; if one was for appending and none for output it is there with
what it held; and it is as it was otherwise. A file that was opened for input was there when its turn
came, from the beginning or made by a redirection before. -/
theorem Redirect.applyAll_files [DecidableEq N] {k : Kernel σ} {view : FileView σ N}
    (hk : k.OpensFiles view) {redirects : List Redirect} {p p' : Process} {s s' : σ}
    (hsound : view.Sound s) (hnamed : ∀ r ∈ redirects, view.named? s r.target ≠ none)
    (h : applyAll k redirects p s = (.ok (), p', s')) :
    (∃ (openings : List Opening) (table : Table), openings.map (·.redirect) = redirects ∧
      k.Opens openings s s' ∧
      (∀ o ∈ openings, ∃ n, view.named? s o.redirect.target = some n ∧
        view.Leads s' o.handle n o.redirect.direction) ∧
      p' = { p with table } ∧ table.capacity = p.table.capacity ∧
      ∀ fd, table.get? fd =
        match openings.reverse.find? fun o => o.redirect.direction.descriptor = fd with
        | some o => some ⟨o.handle, false⟩
        | none => p.table.get? fd) ∧
    (∀ other n direction, view.Leads s other n direction → view.Leads s' other n direction) ∧
    view.content? s' = view.reopened s redirects ∧
    (∀ r ∈ redirects, ∀ n, view.named? s r.target = some n →
      (r.direction = .output → view.content? s' n = some []) ∧
      (r.direction = .append →
        (∀ other ∈ redirects, other.direction = .output → view.named? s other.target ≠ some n) →
        view.content? s' n = some ((view.content? s n).getD []))) ∧
    (∀ n, (∀ r ∈ redirects, view.named? s r.target = some n → r.direction = .input) →
      view.content? s' n = view.content? s n) ∧
    ∀ before r after n, redirects = before ++ r :: after → r.direction = .input →
      view.named? s r.target = some n →
      view.content? s n ≠ none ∨
        ∃ other ∈ before, other.direction ≠ .input ∧ view.named? s other.target = some n := by
  obtain ⟨openings, table, rfl, hopens, hp', hcapacity, hget⟩ := applyAll_opens h
  obtain ⟨-, hkept, hleads, hcontent, hpresent⟩ := hopens.files hk hsound hnamed
  refine ⟨⟨openings, table, rfl, hopens, hleads, hp', hcapacity, fun fd => ?_⟩, hkept, hcontent, ?_, ?_,
    ?_⟩
  · rw [hget]
    unfold Table.redirected Opening.last?
    rw [List.getLast?_eq_head?_reverse, ← List.filter_reverse, List.head?_filter]
    cases openings.reverse.find? fun o => o.redirect.direction.descriptor = fd <;> rfl
  · intro r hr n hn
    rw [hcontent]
    refine ⟨fun houtput => ?_, fun happend hother => ?_⟩
    · exact FileView.reopened_of_output ⟨r, hr, houtput, hn⟩
    · exact FileView.reopened_of_append ⟨r, hr, happend, hn⟩ hother
  · intro n hn
    rw [hcontent]
    exact FileView.reopened_of_input hn
  · intro before r after n hsplit hinput hn
    exact FileView.reopened_ne_none (hpresent before r after n hsplit hinput hn)

/-- With standard input and output closed each file is opened as descriptor 0. One file is made, emptied and
then read, and one is appended to. -/
theorem Redirect.applyAll_files_closed_streams :
    let files : FileTree :=
      ⟨#[.directory 0o755 0 [([102], 1)], .file 0o644 [7]], 0, FileTree.usualMask⟩
    let w : World := .ofSystem ⟨files, #[], #[], []⟩ []
    let p : Process := ⟨1, 0, ⟨[none, none, some ⟨.pipe 0 .write, false⟩], 9⟩, []⟩
    let redirects : List Redirect :=
      [⟨.output, ['g']⟩, ⟨.append, ['f']⟩, ⟨.append, ['g']⟩, ⟨.input, ['g']⟩]
    let ran := applyAll Kernel.inMemory redirects p w
    World.regularFiles.Sound w ∧
      (∀ r ∈ redirects, World.regularFiles.named? w r.target ≠ none) ∧ ran.1 = .ok () ∧
      ran.2.1.table.slots =
        [some ⟨.file 3, false⟩, some ⟨.file 2, false⟩, some ⟨.pipe 0 .write, false⟩] ∧
      World.regularFiles.content? ran.2.2 (0, [103]) = some [] ∧
      World.regularFiles.content? ran.2.2 (0, [102]) = some [7] := by
  intro files w p redirects ran
  have hnode (n : Nat × Bytes) (id : Nat) (h : files.nodeAt? n = some id) : n = (0, [102]) ∧ id = 1 := by
    obtain ⟨directory, name⟩ := n
    match directory with
    | 0 =>
      by_cases hname : name = [102]
      · subst hname
        exact ⟨rfl, (Option.some.inj h).symm⟩
      · have hnothing : files.nodeAt? (0, name) = none := by
          rw [FileTree.nodeAt?_directory rfl]
          simp [Ne.symm hname]
        rw [hnothing] at h
        exact absurd h (by simp)
    | 1 => cases h
    | _ + 2 => cases h
  have hsound : World.regularFiles.Sound w := by
    refine ⟨fun n id h => ?_, fun n m id _ h h' => ?_⟩
    · rw [(hnode n id h).2]
      decide
    · rw [(hnode n id h).1, (hnode m id h').1]
  have hnamed : ∀ r ∈ redirects, World.regularFiles.named? w r.target ≠ none := by
    decide
  have hdone : ran.1 = .ok () := by
    unfold ran redirects p w files
    rfl
  have hran : applyAll Kernel.inMemory redirects p w = (.ok (), ran.2.1, ran.2.2) := Prod.ext hdone rfl
  obtain ⟨-, -, -, hmade, -, -⟩ := applyAll_files Kernel.inMemory_opensFiles hsound hnamed hran
  have hg := hmade ⟨.output, ['g']⟩ (by decide) (0, [103]) (by rfl)
  have hf := hmade ⟨.append, ['f']⟩ (by decide) (0, [102]) (by rfl)
  exact ⟨hsound, hnamed, hdone, by decide +kernel, hg.1 rfl, hf.2 rfl (by decide)⟩

end LineShell
