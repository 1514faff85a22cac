import LineShell.Proofs.Kernel.Journal
import LineShell.Proofs.Kernel.Laws
import LineShell.Proofs.Kernel.Stage

/-!
# How the children of a pipeline are wired

Each child of a pipeline begins on its command with its input from the pipe before it and its output
to the pipe after it, and with no other descriptor to any of the pipeline's pipes. Redirections then
replace the one or the other.

* `StageWiring`: the descriptors of the child at one place of a pipeline.
* `forkStages_wired`: the induction over the stages. It carries `Between` for the interpreter's table,
  and the numbers of pipes that are in use.
* `Staged.redirected_away`: a redirected descriptor was the only one that led where it led before.
* `pipeline_wired`: all of it, for a pipeline whose run is written down.

The system is trusted with `Kernel.PipeLaws`.
-/

namespace LineShell

variable {σ : Type u}

/-! ## The children, one after another -/

/-- Children that begin with the right descriptors, for stages of which the first reads from the pipe
`source`, if there is one. There may be fewer children than stages, and then a pipe that no child was
forked for. -/
inductive Wired (base : Table) :
    Option Nat → List Command → List Nat → List (Beginning σ) → Prop where
  | stopped (source : Option Nat) (stages : List Command) (pipes : List Nat) :
      Wired base source stages pipes []
  | last {source : Option Nat} {stage : Command} {child : Beginning σ}
      (words : child.words = stage.words) (staged : Staged base source none child.process.table) :
      Wired base source [stage] [] [child]
  | pass {source : Option Nat} {stage next : Command} {rest : List Command} {id : Nat}
      {pipes : List Nat} {child : Beginning σ} {children : List (Beginning σ)}
      (words : child.words = stage.words)
      (staged : Staged base source (some id) child.process.table)
      (others : Wired base (some id) (next :: rest) pipes children) :
      Wired base source (stage :: next :: rest) (id :: pipes) (child :: children)

theorem ChildBody.journaled_journal (body : ChildBody σ) (words : List Text) (p : Process)
    (s : σ × Journal σ) :
    (body.journaled words p s).2.2.2 =
      { s.2 with beginnings := s.2.beginnings ++ [⟨words, p, s.1⟩] } := rfl

namespace Machine

/-- A fork that is granted writes nothing down. -/
theorem granted_journal {k : Kernel σ} {m : Machine (σ × Journal σ)} {world : σ × Journal σ}
    (hfork : m.Grants k.journaled world) : world.2 = m.world.2 := by
  rw [(Kernel.journaled_fork hfork).2, flush_world, Process.flush_journal]

/-- Starting a stage writes down the one child, with the table that the stage gives it. -/
theorem startStage_journal (k : Kernel σ) (body : ChildBody σ) (stage : Command) {input : Nat}
    {pipe : Option Process.PipeEnds} {m : Machine (σ × Journal σ)} {world : σ × Journal σ}
    (hfork : m.Grants k.journaled world) {v : Table}
    (hv : m.process.table.forStage input pipe = .ok v) :
    ∃ child : Beginning σ, child.words = stage.words ∧ child.process.table = v ∧
      (m.startStage k.journaled body.journaled stage input pipe world).world.2 =
        { m.world.2 with beginnings := m.world.2.beginnings ++ [child] } := by
  have hv' : (m.granted k.journaled world).child.table.forStage input pipe = .ok v := by
    change (m.granted k.journaled world).process.table.forStage input pipe = .ok v
    rw [granted_table]
    exact hv
  refine ⟨⟨stage.words, { (m.granted k.journaled world).child with table := v }, world.1⟩, rfl, rfl, ?_⟩
  rw [startStage_world, fork_eq]
  simp only
  rw [Process.finish_journal]
  unfold stageBody
  rw [hv']
  simp only
  rw [ChildBody.journaled_journal]
  simp only [granted_world, granted_journal hfork]

/-- **Every stage that is forked is wired**, and the pipes between the stages are new. -/
theorem forkStages_wired {k : Kernel σ} {used : σ → Nat → Prop} (laws : k.PipeLaws used)
    (body : ChildBody σ) (hbody : ∀ id words p s, used s id → used (body words p s).2.2 id)
    {base : Table} (hopen : base.StandardOpen) (stages : List Command) (input : Nat)
    (m : Machine (σ × Journal σ)) {source : Option Nat} (h : Between base input source m.process.table) :
    let ran := m.forkStages k.journaled body.journaled stages input
    ∃ pipes children,
      ran.2.2.world.2 =
        { m.world.2 with
          pipes := m.world.2.pipes ++ pipes
          beginnings := m.world.2.beginnings ++ children } ∧
      Wired base source stages pipes children ∧
      (∀ id ∈ pipes, ¬ used m.world.1 id) ∧ pipes.Nodup ∧
      children.length = ran.1.length ∧ (ran.2.1 = none → ran.1.length = stages.length) := by
  induction stages, input, m using forkStages_induct k.journaled body.journaled
    generalizing source with
  | nil input m =>
    rw [forkStages_nil]
    exact ⟨[], [], by simp, .stopped source [] [], by simp, .nil, rfl, fun _ => rfl⟩
  | last stage input m world hfork =>
    obtain ⟨v, hv, hstaged⟩ := h.forStage_last hopen
    obtain ⟨child, hwords, rfl, hjournal⟩ := startStage_journal k body stage hfork hv
    rw [forkStages_last hfork]
    refine ⟨[], [child], ?_, .last hwords hstaged, by simp, .nil, rfl, fun _ => rfl⟩
    simp only
    rw [hjournal]
    simp
  | lastRefused stage input m errno hfork =>
    rw [forkStages_last_refused hfork]
    refine ⟨[], [], ?_, .stopped source _ [], by simp, .nil, rfl, fun hnone => absurd hnone (by simp)⟩
    simp only
    rw [closeInput_world, flush_world, Process.flush_journal]
    simp
  | stop stage next rest input m errno hpipe =>
    rw [forkStages_stop hpipe]
    exact ⟨[], [], by simp, .stopped source _ [], by simp, .nil, rfl, fun hnone => absurd hnone (by simp)⟩
  | refused stage next rest input m pipe process made errno hpipe hfork =>
    -- the pipe was made, and is no child's
    obtain ⟨id, table, hnew, rfl, -⟩ := Process.openPipe_eq_ok hpipe
    obtain ⟨hnew, hpipes⟩ := Kernel.journaled_newPipe hnew
    rw [forkStages_refused hpipe hfork]
    refine ⟨[id], [], ?_, .stopped source _ [id], ?_, by simp, rfl, fun hnone => absurd hnone (by simp)⟩
    · simp only
      rw [dropStage_world, Process.flush_journal]
      simp [hpipes]
    · exact List.forall_mem_singleton.mpr (laws.fresh hnew)
  | pass stage next rest input m pipe process made world hpipe hfork ih =>
    obtain ⟨id, table, hnew, rfl, hopened⟩ := Process.openPipe_eq_ok hpipe
    obtain ⟨hnew, hpipes⟩ := Kernel.journaled_newPipe hnew
    obtain ⟨v, hv, hstaged⟩ := h.forStage hopen hopened
    obtain ⟨child, hwords, rfl, hjournal⟩ := startStage_journal k body stage hfork hv
    obtain ⟨pipes, children, hran, hwired, hfresh, hnodup, hlength, hall⟩ :=
      ih (h.passStage hopen hopened k.journaled body.journaled stage world)
    -- whatever was in use before the stage, and its pipe as well, is in use after it
    have hused {other : Nat} (hother : used made.1 other) :=
      startStage_keeps (laws.keeps other).toKeeps.journaled body.journaled
        (fun words p s => hbody other words p s.1) stage input (some pipe) hfork hother
    have hpassed : (passStage k.journaled body.journaled stage input pipe world
        { m with process := { m.process with table }, world := made }).world.2 =
          { made.2 with beginnings := made.2.beginnings ++ [child] } := hjournal
    rw [forkStages_pass hpipe hfork]
    refine ⟨id :: pipes, child :: children, ?_, .pass hwords hstaged hwired, ?_, ?_, ?_, ?_⟩
    · simp only
      rw [hran, hpassed]
      simp [hpipes]
    · refine List.forall_mem_cons.mpr ⟨laws.fresh hnew, fun other hother hin => ?_⟩
      exact hfresh other hother (hused (laws.kept hnew hin))
    · refine List.nodup_cons.mpr ⟨fun hid => ?_, hnodup⟩
      exact hfresh id hid (hused (laws.made hnew))
    · simp only [List.length_cons, hlength]
    · intro hnone
      simp only [List.length_cons] at hnone ⊢
      rw [hall hnone, List.length_cons]

end Machine

/-! ## The child at one place -/

/-- The descriptors of the child at place `i` of a pipeline of `n` stages, counted from 0, where `pipes`
are the pipes between the stages and `base` is the interpreter's table. -/
structure StageWiring (base : Table) (pipes : List Nat) (n i : Nat) (t : Table) : Prop where
  first : i = 0 → t.get? 0 = base.get? 0
  reads : 0 < i → ∃ id, pipes[i - 1]? = some id ∧ t.get? 0 = some ⟨.pipe id .read, false⟩
  last : i + 1 = n → t.get? 1 = base.get? 1
  writes : i + 1 < n → ∃ id, pipes[i]? = some id ∧ t.get? 1 = some ⟨.pipe id .write, false⟩
  others : ∀ fd, 2 ≤ fd → t.get? fd = base.get? fd
  alone : ∀ fd slot id side, t.get? fd = some slot → slot.handle = .pipe id side → id ∈ pipes →
    fd = 0 ∧ 0 < i ∨ fd = 1 ∧ i + 1 < n

/-- The pipes on either side of a place. -/
theorem Wired.get? {base : Table} {source : Option Nat} {stages : List Command} {pipes : List Nat}
    {children : List (Beginning σ)} (h : Wired base source stages pipes children) {i : Nat}
    {child : Beginning σ} (hchild : children[i]? = some child) :
    stages[i]?.map (·.words) = some child.words ∧
      ∃ before after, Staged base before after child.process.table ∧
        (i = 0 → before = source) ∧ (0 < i → ∃ id, pipes[i - 1]? = some id ∧ before = some id) ∧
        (i + 1 = stages.length → after = none) ∧
        (i + 1 < stages.length → ∃ id, pipes[i]? = some id ∧ after = some id) := by
  induction h generalizing i with
  | stopped source stages pipes => exact absurd hchild (by simp)
  | @last source stage only words staged =>
    cases i with
    | zero =>
      obtain rfl : only = child := by simpa using hchild
      refine ⟨by simp [words], source, none, staged, fun _ => rfl, fun h => ?_, fun _ => rfl, fun h => ?_⟩
      · exact absurd h (by simp)
      · exact absurd h (by simp)
    | succ i => exact absurd hchild (by simp)
  | @pass source stage next rest id pipes first children words staged others ih =>
    cases i with
    | zero =>
      obtain rfl : first = child := by simpa using hchild
      refine ⟨by simp [words], source, some id, staged, fun _ => rfl, fun h => ?_, fun h => ?_,
        fun _ => ⟨id, rfl, rfl⟩⟩
      · exact absurd h (by simp)
      · exact absurd h (by simp)
    | succ i =>
      obtain ⟨hwords, before, after, hstaged, hfirst, hreads, hlast, hwrites⟩ := ih hchild
      refine ⟨hwords, before, after, hstaged, fun h => ?_, fun _ => ?_, fun h => ?_, fun h => ?_⟩
      · exact absurd h (by simp)
      · cases i with
        | zero => exact ⟨id, rfl, hfirst rfl⟩
        | succ i => exact hreads (by omega)
      · exact hlast (by simpa using h)
      · exact hwrites (by simpa using h)

section

variable {base t : Table} {before after : Option Nat}

theorem Staged.get?_zero (h : Staged base before after t) :
    t.get? 0 = before.elim (base.get? 0) fun id => some ⟨.pipe id .read, false⟩ := by
  rw [h.get?, stageSlot, if_pos rfl]

theorem Staged.get?_one (h : Staged base before after t) :
    t.get? 1 = after.elim (base.get? 1) fun id => some ⟨.pipe id .write, false⟩ := by
  rw [h.get?, stageSlot, if_neg (by omega), if_pos rfl]

theorem Staged.get?_other (h : Staged base before after t) {fd : Nat} (hfd : 2 ≤ fd) :
    t.get? fd = base.get? fd := by
  rw [h.get?, stageSlot, if_neg (by omega), if_neg (by omega)]

/-- A descriptor to a pipe that the interpreter does not hold is one of the two that the stage put in
place. -/
theorem Staged.get?_pipe (h : Staged base before after t) {fd id : Nat} {side : PipeEnd} {slot : Slot}
    (hslot : t.get? fd = some slot) (hpipe : slot.handle = .pipe id side)
    (hbase : ∀ fd slot side, base.get? fd = some slot → slot.handle ≠ .pipe id side) :
    fd = 0 ∧ before = some id ∧ side = .read ∨ fd = 1 ∧ after = some id ∧ side = .write := by
  rw [h.get?, stageSlot] at hslot
  split at hslot
  · rename_i hfd
    cases before with
    | none => exact absurd hpipe (hbase 0 slot side hslot)
    | some other =>
      obtain rfl := Option.some.inj hslot
      obtain ⟨rfl, rfl⟩ := Handle.pipe.inj hpipe
      exact Or.inl ⟨hfd, rfl, rfl⟩
  · split at hslot
    · rename_i hfd
      cases after with
      | none => exact absurd hpipe (hbase 1 slot side hslot)
      | some other =>
        obtain rfl := Option.some.inj hslot
        obtain ⟨rfl, rfl⟩ := Handle.pipe.inj hpipe
        exact Or.inr ⟨hfd, rfl, rfl⟩
    · exact absurd hpipe (hbase fd slot side hslot)

/-- **A descriptor that was redirected away from a pipe was the only one to that end of it.** -/
theorem Staged.redirected_away (h : Staged base before after t) {openings : List Opening}
    (hside : ∀ o ∈ openings, ∀ id side, o.handle = .pipe id side →
      (side = .read ↔ o.redirect.direction = .input))
    {fd id : Nat} {side : PipeEnd} {slot : Slot} (hslot : t.get? fd = some slot)
    (hpipe : slot.handle = .pipe id side)
    (hbase : ∀ fd slot side, base.get? fd = some slot → slot.handle ≠ .pipe id side)
    (haway : ∀ slot, t.redirected openings fd = some slot → slot.handle ≠ .pipe id side) :
    ∀ other slot, t.redirected openings other = some slot → slot.handle ≠ .pipe id side := by
  intro other slot' hslot' hpipe'
  -- descriptor 0 alone reads from a pipe, and descriptor 1 alone writes to one
  have hfd : fd = if side = .read then 0 else 1 := by
    rcases h.get?_pipe hslot hpipe hbase with ⟨rfl, -, rfl⟩ | ⟨rfl, -, rfl⟩ <;> rfl
  have hother : other = if side = .read then 0 else 1 := by
    cases hlast : Opening.last? other openings with
    | none =>
      have : t.get? other = some slot' := by
        rw [Table.redirected, hlast] at hslot'
        exact hslot'
      rcases h.get?_pipe this hpipe' hbase with ⟨rfl, -, rfl⟩ | ⟨rfl, -, rfl⟩ <;> rfl
    | some handle =>
      obtain ⟨o, ho, rfl, rfl⟩ := Opening.mem_of_last? hlast
      rw [Table.redirected, hlast] at hslot'
      obtain rfl := Option.some.inj hslot'
      have := hside o ho id side hpipe'
      cases hdirection : o.redirect.direction <;> cases side <;> simp_all [Direction.descriptor]
  rw [hfd] at haway
  rw [hother] at hslot'
  exact haway slot' hslot' hpipe'

end

/-! ## The whole pipeline -/

/-- What redirections make of a child of a pipeline with these pipes: each of them opened its file, the
last file of a descriptor is what it leads to, and no descriptor leads to the end of a pipe that one of
them was redirected away from. -/
structure StageRedirection (k : Kernel σ) (pipes : List Nat) (child : Beginning σ)
    (openings : List Opening) (args : List Text) (t : Table) : Prop where
  planned : plan child.words = .ok ⟨openings.map (·.redirect), args⟩
  genuine : ∀ o ∈ openings, o.Genuine k
  get? : ∀ fd, t.get? fd = child.process.table.redirected openings fd
  away : ∀ fd slot id side, id ∈ pipes →
    child.process.table.get? fd = some slot → slot.handle = .pipe id side →
    (∀ slot, t.get? fd = some slot → slot.handle ≠ .pipe id side) →
    ∀ other slot, t.get? other = some slot → slot.handle ≠ .pipe id side

/-- A child that is wired resolves its redirections as it should. -/
theorem Staged.resolve {k : Kernel σ} {used : σ → Nat → Prop} (laws : k.PipeLaws used)
    {base : Table} {before after : Option Nat} {child : Beginning σ}
    (h : Staged base before after child.process.table) {pipes : List Nat}
    (hbase : ∀ id ∈ pipes, ∀ fd slot side, base.get? fd = some slot → slot.handle ≠ .pipe id side)
    {world ended : σ} {args : List Text} {process : Process}
    (hresolve : LineShell.resolve k child.words child.process world = (.ok args, process, ended)) :
    ∃ journal, LineShell.resolve k.journaled child.words child.process (world, .empty) =
        (.ok args, process, ended, journal) ∧
      StageRedirection k pipes child journal.openings args process.table := by
  obtain ⟨journal, hresolve⟩ := resolve_journal hresolve
  obtain ⟨planned, openings, hplan, rfl, hjournal, hmap, hgenuine, hget⟩ := resolve_journaled hresolve
  have hopenings : journal.openings = openings := by
    change journal = _ at hjournal
    rw [hjournal]
    rfl
  refine ⟨journal, hresolve, ?_⟩
  rw [hopenings]
  refine ⟨by rw [hplan, hmap], hgenuine, hget, ?_⟩
  intro fd slot id side hid hslot hpipe haway other slot' hslot'
  have hside : ∀ o ∈ openings, ∀ id side, o.handle = .pipe id side →
      (side = .read ↔ o.redirect.direction = .input) := by
    intro o ho id side hhandle
    obtain ⟨p, s, s', hfile⟩ := hgenuine o ho
    rw [hhandle] at hfile
    exact laws.side hfile
  refine h.redirected_away hside hslot hpipe (hbase id hid) (fun slot hslot => ?_) other slot' ?_
  · exact haway slot (by rw [hget]; exact hslot)
  · rw [← hget]
    exact hslot'

/-- The descriptors of a child that is wired, by its place. -/
theorem Staged.stageWiring {base : Table} {before after : Option Nat} {t : Table}
    (h : Staged base before after t) {pipes : List Nat} {n i : Nat}
    (hbase : ∀ id ∈ pipes, ∀ fd slot side, base.get? fd = some slot → slot.handle ≠ .pipe id side)
    (hfirst : i = 0 → before = none)
    (hreads : 0 < i → ∃ id, pipes[i - 1]? = some id ∧ before = some id)
    (hlast : i + 1 = n → after = none)
    (hwrites : i + 1 < n → ∃ id, pipes[i]? = some id ∧ after = some id) (hn : i < n) :
    StageWiring base pipes n i t where
  first hi := by rw [h.get?_zero, hfirst hi]; rfl
  reads hi := by
    obtain ⟨id, hid, rfl⟩ := hreads hi
    exact ⟨id, hid, h.get?_zero⟩
  last hi := by rw [h.get?_one, hlast hi]; rfl
  writes hi := by
    obtain ⟨id, hid, rfl⟩ := hwrites hi
    exact ⟨id, hid, h.get?_one⟩
  others fd hfd := h.get?_other hfd
  alone fd slot id side hslot hpipe hid := by
    rcases h.get?_pipe hslot hpipe (hbase id hid) with ⟨rfl, hbefore, -⟩ | ⟨rfl, hafter, -⟩
    · refine Or.inl ⟨rfl, Nat.pos_of_ne_zero fun hi => ?_⟩
      rw [hfirst hi] at hbefore
      exact absurd hbefore (by simp)
    · refine Or.inr ⟨rfl, ?_⟩
      rcases Nat.lt_or_eq_of_le (show i + 1 ≤ n from hn) with hlt | heq
      · exact hlt
      · rw [hlast heq] at hafter
        exact absurd hafter (by simp)

namespace Machine

/-- **The children of a pipeline are wired to its pipes**, and to nothing else of them, when they begin
on their commands, and so they are after their redirections. One child begins for every stage, unless a
pipe cannot be made or a fork is refused: then one for every stage before it. That all this is written
down changes nothing in the run. -/
theorem pipeline_wired {k : Kernel σ} {used : σ → Nat → Prop} (laws : k.PipeLaws used) {m : Machine σ}
    (hopen : m.process.table.StandardOpen)
    (hused : ∀ fd slot id side, m.process.table.get? fd = some slot → slot.handle = .pipe id side →
      used m.world id)
    (stages : List Command) :
    let forked := m.forkStages k (commandBody k) stages 0
    let ran := m.journaling.runPipeline k.journaled (commandBody k).journaled stages
    let journal := ran.2.world.2
    (ran.1, ran.2.map Prod.fst) = m.runPipeline k (commandBody k) stages ∧
    journal.beginnings.length = forked.1.length ∧
    (forked.2.1 = none → forked.1.length = stages.length) ∧
    journal.pipes.Nodup ∧
    ∀ i child, journal.beginnings[i]? = some child →
      stages[i]?.map (·.words) = some child.words ∧
      StageWiring m.process.table journal.pipes stages.length i child.process.table ∧
      ∀ world args process ended,
        resolve k child.words child.process world = (.ok args, process, ended) →
        ∃ redirected, resolve k.journaled child.words child.process (world, .empty) =
            (.ok args, process, ended, redirected) ∧
          StageRedirection k journal.pipes child redirected.openings args process.table := by
  have hprojects := k.journaled_projects
  have hbody := (commandBody k).journaled_projects
  have hforked := forkStages_map hprojects hbody stages 0 m.journaling
  rw [journaling_map] at hforked
  obtain ⟨pipes, children, hjournal, hwired, hfresh, hnodup, hlength, hall⟩ :=
    forkStages_wired laws (commandBody k)
      (fun id words p s hs => Process.runCommand_keeps (laws.keeps id) words p hs) hopen stages 0
      m.journaling (.first (.refl _))
  have hended : (m.journaling.runPipeline k.journaled (commandBody k).journaled stages).2.world.2 =
      ⟨pipes, [], children⟩ := by
    rw [runPipeline_eq]
    simp only
    rw [waitAll_journal, hjournal]
    rfl
  have hbase : ∀ id ∈ pipes, ∀ fd slot side, m.process.table.get? fd = some slot →
      slot.handle ≠ .pipe id side :=
    fun id hid fd slot side hslot hpipe => hfresh id hid (hused fd slot id side hslot hpipe)
  simp only
  rw [hended, ← hforked]
  refine ⟨?_, hlength, hall, hnodup, fun i child hchild => ?_⟩
  · rw [runPipeline_map hprojects hbody, journaling_map]
  · obtain ⟨hwords, before, after, hstaged, hfirst, hreads, hlast, hwrites⟩ := hwired.get? hchild
    have hn : i < stages.length := by
      rcases Nat.lt_or_ge i stages.length with hlt | hge
      · exact hlt
      · rw [List.getElem?_eq_none hge] at hwords
        exact absurd hwords (by simp)
    refine ⟨hwords, hstaged.stageWiring hbase hfirst hreads hlast hwrites hn, ?_⟩
    intro world args process ended hresolve
    exact hstaged.resolve laws hbase hresolve

/-- Three stages, the second of which is redirected away from the first pipe: its number 0 leads to the
file and not to the pipe any more. -/
theorem pipeline_wired_three_stages :
    let m := Bench.machine 2 []
    let ran := m.journaling.runPipeline Kernel.bench.journaled (commandBody .bench).journaled
      [⟨[['a']]⟩, ⟨[['b'], ['<'], ['f']]⟩, ⟨[['c']]⟩]
    m.process.table.StandardOpen ∧
    (∀ fd slot id side, m.process.table.get? fd = some slot → slot.handle = .pipe id side →
      id < m.world.made) ∧
    ran.2.world.2.pipes = [0, 1] ∧
    ∃ child, ran.2.world.2.beginnings[1]? = some child ∧ child.words = [['b'], ['<'], ['f']] ∧
      StageWiring m.process.table [0, 1] 3 1 child.process.table ∧
      ∃ process ended, resolve Kernel.bench child.words child.process child.world =
          (.ok [['b']], process, ended) ∧
        ∃ redirected, resolve Kernel.bench.journaled child.words child.process (child.world, .empty) =
            (.ok [['b']], process, ended, redirected) ∧
          StageRedirection Kernel.bench [0, 1] child redirected.openings [['b']] process.table := by
  have hused : ∀ fd slot id side, (Bench.machine 2 []).process.table.get? fd = some slot →
      slot.handle = .pipe id side → id < (Bench.machine 2 []).world.made := by
    intro fd slot id side hslot hpipe
    rcases fd with _ | _ | _ | fd <;> simp [Bench.machine, Table.get?] at hslot <;> subst hslot <;>
      exact absurd hpipe (by simp)
  obtain ⟨-, -, -, -, hwired⟩ := pipeline_wired Kernel.bench_pipeLaws (by decide) hused
    [⟨[['a']]⟩, ⟨[['b'], ['<'], ['f']]⟩, ⟨[['c']]⟩]
  obtain ⟨-, hwiring, hredirected⟩ := hwired 1 _ rfl
  exact ⟨by decide, hused, rfl, _, rfl, rfl, hwiring, _, _, rfl, hredirected _ _ _ _ rfl⟩

end Machine

end LineShell
