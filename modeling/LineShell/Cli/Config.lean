import LineShell.Session.History

/-!
# The configuration of a run

What the arguments and the environment settle: a single line to run or a script to read, the capacity
of the history, and where the startup lines come from.
-/

namespace LineShell

/-- The variables of the environment that a run looks at. -/
structure Environment where
  historySize : Option Text
  home : Option Text
  log : Option Text
  deriving DecidableEq, Repr

/-- What a run is asked to do. -/
structure Config where
  /-- A line to run instead of reading input. -/
  command : Option Text
  historySize : Nat
  /-- A startup file other than the one at home. -/
  rcfile : Option Text
  /-- Do without a startup file. -/
  norc : Bool
  /-- A file to read lines from instead of standard input. -/
  script : Option Text
  deriving DecidableEq, Repr

/-- A name within a directory: one slash stands between the two, and none after an empty directory
name. -/
def joinPath (directory name : Text) : Text :=
  if directory.isEmpty || directory.getLast? = some '/' then directory ++ name
  else directory ++ '/' :: name

namespace Config

/-- The name of the startup file at home. -/
def rcName : Text := ".vshrc".toList

/-- The startup file of an interactive run (`rc_path`). -/
def rcPath (c : Config) (env : Environment) : Option Text :=
  if c.norc then none
  else c.rcfile.or (env.home.map fun home => joinPath home rcName)

end Config

end LineShell
