import LineShell.Kernel.Basic

/-!
# Carrying redirections out

`Redirect.apply` opens the file of a redirection and puts it in the place of standard input or
output; `Redirect.applyAll` does so for each in order, so that the last one of a direction wins while
the files of all are opened, and stops at the first failure with what was done so far. `resolve` plans
first: where an operator lacks its file, nothing is opened.
-/

namespace LineShell

variable {σ : Type u}

namespace Redirect

/-- Carries one redirection out (one round of `apply`). -/
def apply (k : Kernel σ) (r : Redirect) (p : Process) (s : σ) :
    Except RedirectError Unit × Process × σ :=
  match p.openFile k r.direction r.target s with
  | .error failure => (.error (.unopened r.target failure), p, s)
  | .ok (fd, p, s) =>
    let (placed, table) := p.table.install fd r.direction.descriptor
    (placed.mapError (.unplaced r.target), { p with table }, s)

/-- Carries redirections out in order, up to the first failure (`apply`). -/
def applyAll (k : Kernel σ) : List Redirect → Process → σ → Except RedirectError Unit × Process × σ
  | [], p, s => (.ok (), p, s)
  | r :: rest, p, s =>
    match r.apply k p s with
    | (.ok (), p, s) => applyAll k rest p s
    | (.error e, p, s) => (.error e, p, s)

end Redirect

/-- Carries out the redirections among the words of a command, and gives the other words (`resolve`). -/
def resolve (k : Kernel σ) (words : List Text) (p : Process) (s : σ) :
    Except RedirectError (List Text) × Process × σ :=
  match plan words with
  | .error e => (.error e, p, s)
  | .ok planned =>
    let (done, p, s) := Redirect.applyAll k planned.redirects p s
    (done.map fun () => planned.words, p, s)

end LineShell
