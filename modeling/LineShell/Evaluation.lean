import LineShell.Status
import LineShell.Syntax.Line

/-!
# Running a line

What running a command does is left to a `Launcher`: any way in which a command, or the stages of a
pipeline, turn one world into the next and end with a status. Evaluation only decides which commands
run, in which order, and whose status counts:

* a sequence runs its segments from left to right whatever their status, and ends with that of the
  last one (success if there is none);
* a conditional runs its rest only after its left side succeeded; without a left side it does nothing
  and counts as a success.
-/

namespace LineShell

/-- How commands are run: what they do to the world, and how they end. -/
structure Launcher (W : Type u) where
  /-- Runs one command to its end. -/
  command : Command → W → Status × W
  /-- Runs the stages of a pipeline side by side, all to their end. -/
  pipeline : List Command → W → Status × W

variable {W : Type u}

mutual

/-- Runs one segment to its end (`run_segment`, with `run_conditional`). -/
def Segment.run (launcher : Launcher W) : Segment → W → Status × W
  | .simple command, w => launcher.command command w
  | .conditional none _, w => (.success, w)
  | .conditional (some left) none, w => launcher.command left w
  | .conditional (some left) (some rest), w =>
    let ran := launcher.command left w
    if ran.1.isSuccess then Segment.runAll launcher rest .success ran.2 else ran

/-- Runs segments one after another; `status` is what counts if there is none (`run_sequence`). -/
def Segment.runAll (launcher : Launcher W) : List Segment → Status → W → Status × W
  | [], status, w => (status, w)
  | segment :: rest, _, w =>
    let ran := segment.run launcher w
    Segment.runAll launcher rest ran.1 ran.2

end

/-- Runs a line to its end (`run_line`). -/
def Line.run (launcher : Launcher W) : Line → W → Status × W
  | .pipeline stages, w => launcher.pipeline stages w
  | .sequence segments, w => Segment.runAll launcher segments .success w

end LineShell
