import LineShell.Text.Blank
import LineShell.Text.Numeral
import LineShell.Text.Pieces
import LineShell.Text.Utf8
import LineShell.Status
import LineShell.Evaluation
import LineShell.Redirect.Plan
import LineShell.Kernel.Pipeline
import LineShell.Session.Dispatch
import LineShell.Session.Reader
import LineShell.Cli.Parse
import LineShell.Session.Interpreter
import LineShell.System.Console
import LineShell.System.Station
import LineShell.Proofs.Evaluation.Flat
import LineShell.Proofs.Kernel.Hygiene
import LineShell.Proofs.Kernel.Wiring
import LineShell.Proofs.Kernel.Reaping
import LineShell.Proofs.System.Pipes
import LineShell.Proofs.System.Jobs
import LineShell.Proofs.Session.History
import LineShell.Proofs.Syntax.Render
import LineShell.Proofs.Session.Outcome
import LineShell.Proofs.Session.Input
import LineShell.Proofs.Evaluation.Status
import LineShell.Proofs.Session.LastStatus
import LineShell.Proofs.Session.Stretches
import LineShell.Proofs.Kernel.Launch
import LineShell.Proofs.Session.Launches
import LineShell.Proofs.Session.Recognize
import LineShell.Proofs.Syntax.StageLimit
import LineShell.Proofs.Session.Unrecorded
import LineShell.Proofs.Evaluation.Guards
import LineShell.Proofs.Kernel.Files
import LineShell.Proofs.System.Paths
import LineShell.Proofs.System.Files
import LineShell.Proofs.Redirect.Files
import LineShell.Proofs.Redirect.Blocks
import LineShell.Proofs.Redirect.Failure
import LineShell.Proofs.Kernel.Unlaunched
import LineShell.Proofs.Session.Decoding
import LineShell.Proofs.Session.Listing
import LineShell.Proofs.Cli.Configuration
import LineShell.Proofs.Kernel.Interrupts
import LineShell.Proofs.Kernel.Output
import LineShell.Proofs.Kernel.Waiting
import LineShell.Proofs.Text.Joined
