import LineShell.Kernel.Pipeline
import LineShell.Session.Dispatch

/-!
# The interpreter's process as a host for sessions

`Machine.host` gives a session what it needs of the world, by the operations of the interpreter's
process: commands are run as children, and what the session prints goes to the process's standard
output.
-/

namespace LineShell

variable {σ : Type u}

/-- A host whose commands are children that do `body`. -/
def Machine.host (k : Kernel σ) (body : ChildBody σ) : Host (Machine σ) where
  toLauncher := Machine.launcher k body
  interrupted m := m.interrupted
  setInterrupted interrupted m := { m with interrupted }
  output := Machine.output k
  print bytes m := m.print k bytes
  complain message m := m.complain k message

/-- A child that carries its command out: redirections, then the program (the closure that `run_simple`
forks). -/
def commandBody (k : Kernel σ) : ChildBody σ :=
  fun words p s => p.runCommand k words s

end LineShell
