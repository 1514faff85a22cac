import LineShell.Kernel.Basic

/-!
# What opening a file comes to

What a system does to its files is seen through a `FileView`, which tells what file a path names, what
each file holds, and where handles lead.

* `Direction.opened`: what a file holds after it was opened in a direction.
* `Kernel.OpensFiles`: opening a file that a path names changes that file as its direction asks for, and
  no other file. What redirections do to files rests on this.
-/

namespace LineShell

namespace Direction

/-- What a file holds after it was opened, if it is there at all. -/
def opened : Direction → Option Bytes → Option Bytes
  | .input, content => content
  | .output, _ => some []
  | .append, content => some (content.getD [])

end Direction

/-- A view of the files of a system. A file is known by a name of type `N`, whether it is there or not. -/
structure FileView (σ : Type u) (N : Type v) where
  /-- The states in which the view can be trusted. -/
  Sound : σ → Prop
  /-- The file that a path names, if it names a regular file or a place for one. -/
  named? : σ → Text → Option N
  /-- What a file holds, if it is there. -/
  content? : σ → N → Option Bytes
  /-- A handle leads to a file, and was opened in a direction. -/
  Leads : σ → Handle → N → Direction → Prop

namespace FileView

variable {σ : Type u} {N : Type v}

/-- What opening the file `n` comes to: it is there if it was to be read, and it holds what the direction
asks for. Other files and what is open already stay as they are. -/
structure Opened (view : FileView σ N) (direction : Direction) (n : N) (s : σ) (handle : Handle) (s' : σ) :
    Prop where
  sound : view.Sound s'
  named : ∀ path m, view.named? s path = some m → view.named? s' path = some m
  present : direction = .input → view.content? s n ≠ none
  content_self : view.content? s' n = direction.opened (view.content? s n)
  content_other : ∀ m, m ≠ n → view.content? s' m = view.content? s m
  leads : view.Leads s' handle n direction
  kept : ∀ other m direction', view.Leads s other m direction' → view.Leads s' other m direction'

end FileView

/-- A kernel opens the files that a view shows. -/
def Kernel.OpensFiles {σ : Type u} {N : Type v} (k : Kernel σ) (view : FileView σ N) : Prop :=
  ∀ {p direction path s handle s' n}, view.Sound s → view.named? s path = some n →
    k.openFile p direction path s = .ok (handle, s') → view.Opened direction n s handle s'

end LineShell
