import LineShell.Script.Shell
import LineShell.System.World
import LineShell.Utility.Copy
import LineShell.Utility.Count
import LineShell.Utility.FileCommand
import LineShell.Utility.Grep
import LineShell.Utility.Line
import LineShell.Utility.Listing
import LineShell.Utility.Part
import LineShell.Utility.Sort
import LineShell.Utility.Translate

/-!
# The programs of the system, and the files that are always there

`catalogue` gives the program of each name, and `FileTree.standard` is a tree in which these programs
have their places, with the devices and an empty current directory.
-/

namespace LineShell

/-- The programs other than `sh`. -/
def utilities : List (String × Utility) :=
  [("[", Utility.bracketTest), ("basename", Utility.basename), ("cat", Utility.cat),
    ("chmod", Utility.chmod), ("cp", Utility.cp), ("cut", Utility.cut),
    ("dirname", Utility.dirname), ("echo", Utility.echo), ("expr", Utility.expr),
    ("false", Utility.refuse), ("grep", Utility.grep), ("head", Utility.head), ("ls", Utility.ls),
    ("mkdir", Utility.mkdir), ("mv", Utility.mv), ("printf", Utility.printf), ("rm", Utility.rm),
    ("rmdir", Utility.rmdir), ("seq", Utility.seq), ("sleep", Utility.sleep),
    ("sort", Utility.sort), ("tac", Utility.tac), ("tail", Utility.tail), ("tee", Utility.tee),
    ("test", Utility.test), ("touch", Utility.touch), ("tr", Utility.tr), ("true", Utility.succeed),
    ("uniq", Utility.uniq), ("wc", Utility.wc), ("yes", Utility.yes)]

/-- The name of the program that runs scripts. -/
def shellName : String := "sh"

/-- What the programs of the system do. -/
def catalogue : Catalogue := fun name words =>
  if name = shellName then Script.shell words
  else
    match utilities.lookup name with
    | some utility => utility words.tail
    | none => pure 0

/-! ## The files that are always there -/

namespace FileTree

/-- Makes files, each under its name in a directory. -/
def addAll (t : FileTree) (directory : Nat) (nodes : List (String × Node)) : FileTree :=
  nodes.foldl (fun t (name, node) => (t.add directory (ascii name) node).2) t

/-- The mode of directories of the system, in which nothing can be changed. -/
def systemMode : Nat := 0o555

/-- The mode of a directory in which everybody may make files. -/
def openMode : Nat := 0o777

/-- A tree with the programs, the devices, and an empty current directory. -/
def standard : FileTree :=
  let directory (mode parent : Nat) : Node := .directory mode parent []
  let t : FileTree := ⟨#[directory systemMode root], root, usualMask⟩
  let make (t : FileTree) (parent : Nat) (name : String) (mode : Nat) : Nat × FileTree :=
    t.add parent (ascii name) (directory mode parent)
  let (usr, t) := make t root "usr" systemMode
  let (bin, t) := make t usr "bin" systemMode
  let (sbin, t) := make t usr "sbin" systemMode
  let (localDirectory, t) := make t usr "local" systemMode
  let (_, t) := make t localDirectory "bin" systemMode
  let (_, t) := make t localDirectory "sbin" systemMode
  let (_, t) := make t root "etc" systemMode
  let (dev, t) := make t root "dev" systemMode
  let (numbers, t) := make t dev "fd" systemMode
  let (tmp, t) := make t root "tmp" openMode
  let (work, t) := make t tmp "work" t.directoryMode
  let t := (t.link root (ascii "bin") bin).link root (ascii "sbin") sbin
  let t := t.addAll bin ((shellName :: utilities.map Prod.fst).map fun name => (name, .program name))
  let t := t.addAll dev
    [("null", .device .null), ("zero", .device .zero), ("full", .device .full),
      ("tty", .device .terminal), ("random", .device .zero), ("urandom", .device .zero),
      ("stdin", .descriptor 0), ("stdout", .descriptor 1), ("stderr", .descriptor 2)]
  let t := t.addAll numbers ((List.range 10).map fun fd => (toString fd, .descriptor fd))
  { t with current := work }

end FileTree

end LineShell
