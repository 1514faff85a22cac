import LineShell.Session.Reader

/-!
# Lines among chunks and signals

Each thing that happens finds the reader waiting, with all that came before it read: a chunk of bytes
arrives, or a signal. Interrupts cut what arrives into **stretches**. Nothing else does: neither the end
of a chunk nor another signal.

* `stretches`: the bytes between one interrupt and the next.
* `Bytes.completeLines` and `Bytes.unfinished`: the lines of a stretch that a line end closes, and what
  follows the last line end.
* `eventsOf`: what reading stretches line by line gives. An interrupt drops the unfinished line of its
  stretch; the end of the input makes a line of it, if it is not empty.
* `ReadsAs`: reading on in a line gives the events of stretches of which that line is the beginning. Each
  thing that can happen has a lemma for it.
* `readLines_stretches`: so reading gives these events, and then the end of the input for ever.
-/

namespace LineShell

/-- What happens while a reader waits. -/
inductive Happening where
  | data (chunk : Bytes)
  | interrupt
  /-- A signal that is handled by doing nothing. -/
  | otherSignal
  deriving DecidableEq, Repr

namespace Happening

/-- What reads of single bytes make of it. -/
def arrivals : Happening → List Arrival
  | .data chunk => chunk.map .byte
  | .interrupt => [.signal true]
  | .otherSignal => [.signal false]

/-- The bytes that arrive with it. -/
def bytes : Happening → Bytes
  | .data chunk => chunk
  | .interrupt | .otherSignal => []

end Happening

/-- The bytes that arrive between one interrupt and the next. -/
def stretches (happenings : List Happening) : List Bytes :=
  (happenings.splitOn .interrupt).map fun stretch => stretch.flatMap Happening.bytes

namespace Bytes

/-- The lines that a line end closes, without it. -/
def completeLines (bytes : Bytes) : List Bytes :=
  (bytes.splitOn 10).dropLast

/-- What follows the last line end; all of the bytes if there is none. -/
def unfinished (bytes : Bytes) : Bytes :=
  (bytes.splitOn 10).getLastD []

end Bytes

/-- The events of lines. -/
def lineEvents (lines : List Bytes) : List ReadEvent :=
  lines.map fun line => .line (Utf8.decodeLossy line)

/-- What reading stretches line by line gives: all but the last one end with an interrupt. -/
def eventsOf : List Bytes → List ReadEvent
  | [] => []
  | [last] =>
    lineEvents (Bytes.completeLines last) ++
      if Bytes.unfinished last = [] then [] else lineEvents [Bytes.unfinished last]
  | stretch :: next :: rest =>
    lineEvents (Bytes.completeLines stretch) ++ .interrupted :: eventsOf (next :: rest)

/-! ## Stretches -/

theorem stretches_nil : stretches [] = [[]] := rfl

theorem stretches_data (chunk : Bytes) (rest : List Happening) :
    stretches (.data chunk :: rest) = (stretches rest).modifyHead (chunk ++ ·) := by
  unfold stretches
  rw [List.splitOn_eq_splitOnP, List.splitOn_eq_splitOnP, List.splitOnP_cons_eq_if_modifyHead,
    if_neg (by simp)]
  cases rest.splitOnP (· == .interrupt) <;> rfl

theorem stretches_interrupt (rest : List Happening) :
    stretches (.interrupt :: rest) = [] :: stretches rest := by
  unfold stretches
  rw [List.splitOn_eq_splitOnP, List.splitOn_eq_splitOnP, List.splitOnP_cons_eq_if_modifyHead,
    if_pos (by simp)]
  rfl

theorem stretches_otherSignal (rest : List Happening) :
    stretches (.otherSignal :: rest) = stretches rest := by
  unfold stretches
  rw [List.splitOn_eq_splitOnP, List.splitOn_eq_splitOnP, List.splitOnP_cons_eq_if_modifyHead,
    if_neg (by simp)]
  cases rest.splitOnP (· == .interrupt) <;> rfl

/-- Other signals make no difference. -/
theorem stretches_filter (happenings : List Happening) :
    stretches (happenings.filter (· ≠ .otherSignal)) = stretches happenings := by
  induction happenings with
  | nil => rfl
  | cons happening rest ih =>
    cases happening with
    | data chunk => rw [List.filter_cons_of_pos (by simp), stretches_data, stretches_data, ih]
    | interrupt => rw [List.filter_cons_of_pos (by simp), stretches_interrupt, stretches_interrupt, ih]
    | otherSignal => rw [List.filter_cons_of_neg (by simp), stretches_otherSignal, ih]

theorem stretches_ne_nil (happenings : List Happening) : stretches happenings ≠ [] := by
  unfold stretches
  rw [List.splitOn_eq_splitOnP, ne_eq, List.map_eq_nil_iff]
  exact List.splitOnP_ne_nil _ happenings

/-! ## Events -/

section

variable {line : Bytes}

theorem completeLines_of_not_mem (h : 10 ∉ line) : Bytes.completeLines line = [] := by
  rw [Bytes.completeLines, List.splitOn_eq_singleton h]
  rfl

theorem unfinished_of_not_mem (h : 10 ∉ line) : Bytes.unfinished line = line := by
  rw [Bytes.unfinished, List.splitOn_eq_singleton h]
  rfl

theorem completeLines_append_cons (h : 10 ∉ line) (rest : Bytes) :
    Bytes.completeLines (line ++ 10 :: rest) = line :: Bytes.completeLines rest := by
  unfold Bytes.completeLines
  rw [List.splitOn_append_cons_self_of_not_mem h,
    List.dropLast_cons_of_ne_nil (List.splitOn_ne_nil 10 rest)]

theorem unfinished_append_cons (h : 10 ∉ line) (rest : Bytes) :
    Bytes.unfinished (line ++ 10 :: rest) = Bytes.unfinished rest := by
  unfold Bytes.unfinished
  rw [List.splitOn_append_cons_self_of_not_mem h]
  cases hrest : rest.splitOn 10 with
  | nil => exact absurd hrest (List.splitOn_ne_nil 10 rest)
  | cons first others => rfl

/-- What is left at the end of the input is a line, if there is any. -/
theorem eventsOf_last (h : 10 ∉ line) :
    eventsOf [line] = if line = [] then [] else [.line (Utf8.decodeLossy line)] := by
  rw [eventsOf, completeLines_of_not_mem h, unfinished_of_not_mem h]
  rfl

/-- An interrupt drops an unfinished line. -/
theorem eventsOf_interrupted (h : 10 ∉ line) {later : List Bytes} (hlater : later ≠ []) :
    eventsOf (line :: later) = .interrupted :: eventsOf later := by
  cases later with
  | nil => exact absurd rfl hlater
  | cons next rest =>
    rw [eventsOf, completeLines_of_not_mem h]
    rfl

/-- A line end closes the first line of the first stretch. -/
theorem eventsOf_lineEnd (h : 10 ∉ line) {later : List Bytes} (hlater : later ≠ []) :
    eventsOf (later.modifyHead (line ++ 10 :: ·)) =
      .line (Utf8.decodeLossy line) :: eventsOf later := by
  cases later with
  | nil => exact absurd rfl hlater
  | cons first rest =>
    rw [List.modifyHead_cons]
    cases rest with
    | nil =>
      rw [eventsOf, eventsOf, completeLines_append_cons h, unfinished_append_cons h]
      rfl
    | cons next rest =>
      rw [eventsOf, eventsOf, completeLines_append_cons h]
      rfl

end

/-! ## Reading -/

/-- Reading on in a line, last byte first, and then line by line, gives some events, and then the end of
the input. -/
def Yields : Bytes → List Arrival → List ReadEvent → Prop
  | line, arrivals, [] => readOn false line arrivals = ⟨.endOfInput, false, none, []⟩
  | line, arrivals, event :: events =>
    ∃ rest, readOn false line arrivals = ⟨event, false, none, rest⟩ ∧ Yields [] rest events

/-- Only the first reading sees the line and what arrives. -/
theorem Yields.of_readOn_eq {line line' : Bytes} {arrivals arrivals' : List Arrival}
    {events : List ReadEvent} (h : Yields line arrivals events)
    (heq : readOn false line' arrivals' = readOn false line arrivals) : Yields line' arrivals' events := by
  cases events with
  | nil => exact heq.trans h
  | cons event events =>
    obtain ⟨rest, hread, hrest⟩ := h
    exact ⟨rest, heq.trans hread, hrest⟩

/-- When the input is used up, it stays so. -/
theorem readLines_nil (n : Nat) : readLines n false [] = List.replicate n ReadEvent.endOfInput := by
  induction n with
  | zero => rfl
  | succ n ih => exact congrArg (ReadEvent.endOfInput :: ·) ih

/-- **The results of reading are these events**, and then the end of the input for ever. -/
theorem readLines_of_yields {arrivals : List Arrival} {events : List ReadEvent}
    (h : Yields [] arrivals events) (n : Nat) :
    readLines n false arrivals = (events ++ List.replicate n ReadEvent.endOfInput).take n := by
  induction events generalizing arrivals n with
  | nil =>
    cases n with
    | zero => rfl
    | succ n =>
      have hread : readLine false arrivals = ⟨.endOfInput, false, none, []⟩ := h
      rw [readLines, hread]
      simp only
      rw [readLines_nil, List.nil_append, List.take_replicate, Nat.min_self]
      rfl
  | cons event events ih =>
    cases n with
    | zero => rfl
    | succ n =>
      obtain ⟨rest, hread, hrest⟩ := h
      have hread : readLine false arrivals = ⟨event, false, none, rest⟩ := hread
      have henough : (events ++ List.replicate (n + 1) ReadEvent.endOfInput).take n =
          (events ++ List.replicate n ReadEvent.endOfInput).take n := by
        rw [List.take_append, List.take_append, List.take_replicate, List.take_replicate]
        congr 2
        omega
      rw [readLines, hread]
      simp only
      rw [ih hrest, List.cons_append, List.take_succ_cons, henough]

/-- Reading on in a line gives the events of stretches that begin with that line. -/
def ReadsAs (line : Bytes) (arrivals : List Arrival) (later : List Bytes) : Prop :=
  Yields line arrivals (eventsOf (later.modifyHead (line.reverse ++ ·)))

namespace ReadsAs

variable {line : Bytes} {arrivals : List Arrival} {later : List Bytes}

theorem start : ReadsAs [] arrivals later ↔ Yields [] arrivals (eventsOf later) := by
  have hlater : later.modifyHead (([] : Bytes).reverse ++ ·) = later := by
    cases later <;> rfl
  rw [ReadsAs, hlater]

/-- The end of the input makes a line of what was read, if that is not empty. -/
theorem ended (h : 10 ∉ line) : ReadsAs line [] [[]] := by
  have hline : 10 ∉ line.reverse := by simpa using h
  rw [ReadsAs, List.modifyHead_cons, List.append_nil, eventsOf_last hline]
  cases line with
  | nil => exact rfl
  | cons b line =>
    rw [if_neg (by simp)]
    exact ⟨[], rfl, rfl⟩

/-- An interrupt ends the stretch. -/
theorem interrupt (h : 10 ∉ line) (hlater : later ≠ []) (hrest : ReadsAs [] arrivals later) :
    ReadsAs line (.signal true :: arrivals) ([] :: later) := by
  have hline : 10 ∉ line.reverse := by simpa using h
  rw [ReadsAs, List.modifyHead_cons, List.append_nil, eventsOf_interrupted hline hlater]
  exact ⟨arrivals, rfl, start.mp hrest⟩

/-- Any other signal is as if it had not been. -/
theorem otherSignal (h : ReadsAs line arrivals later) :
    ReadsAs line (.signal false :: arrivals) later :=
  h.of_readOn_eq rfl

/-- A line end makes a line of what was read. -/
theorem lineEnd (h : 10 ∉ line) (hlater : later ≠ []) (hrest : ReadsAs [] arrivals later) :
    ReadsAs line (.byte 10 :: arrivals) (later.modifyHead (10 :: ·)) := by
  have hline : 10 ∉ line.reverse := by simpa using h
  rw [ReadsAs, List.modifyHead_modifyHead]
  change Yields _ _ (eventsOf (later.modifyHead (line.reverse ++ 10 :: ·)))
  rw [eventsOf_lineEnd hline hlater]
  exact ⟨arrivals, rfl, start.mp hrest⟩

/-- Any other byte is one more of the line. -/
theorem byte {b : UInt8} (hb : b ≠ 10) (h : ReadsAs (b :: line) arrivals later) :
    ReadsAs line (.byte b :: arrivals) (later.modifyHead (b :: ·)) := by
  have hread : readOn false line (.byte b :: arrivals) = readOn false (b :: line) arrivals := by
    rw [readOn, if_neg hb]
  have hlater : (later.modifyHead (b :: ·)).modifyHead (line.reverse ++ ·) =
      later.modifyHead ((b :: line).reverse ++ ·) := by
    rw [List.modifyHead_modifyHead]
    cases later <;> simp
  rw [ReadsAs, hlater]
  exact h.of_readOn_eq hread

/-- A chunk is its bytes, wherever it begins and ends. -/
theorem chunk (hlater : later ≠ []) (hrest : ∀ line, 10 ∉ line → ReadsAs line arrivals later)
    (chunk : Bytes) {line : Bytes} (h : 10 ∉ line) :
    ReadsAs line (chunk.map .byte ++ arrivals) (later.modifyHead (chunk ++ ·)) := by
  induction chunk generalizing line with
  | nil =>
    have hsame : later.modifyHead (([] : Bytes) ++ ·) = later := by
      cases later <;> rfl
    rw [hsame]
    exact hrest line h
  | cons b chunk ih =>
    have hcons : later.modifyHead (b :: chunk ++ ·) =
        (later.modifyHead (chunk ++ ·)).modifyHead (b :: ·) := by
      rw [List.modifyHead_modifyHead]
      rfl
    rw [hcons, List.map_cons, List.cons_append]
    by_cases hb : b = 10
    · subst hb
      have hne : later.modifyHead (chunk ++ ·) ≠ [] := by
        cases later with
        | nil => exact absurd rfl hlater
        | cons first rest => exact List.cons_ne_nil _ _
      exact lineEnd h hne (ih (by simp))
    · have hline : 10 ∉ b :: line := by
        rw [List.mem_cons, not_or]
        exact ⟨Ne.symm hb, h⟩
      exact byte hb (ih hline)

end ReadsAs

/-- Reading on in a line while things happen. The induction is on what happens; the line read so far is
the beginning of the first stretch. -/
theorem readsAs_stretches (happenings : List Happening) {line : Bytes} (h : 10 ∉ line) :
    ReadsAs line (happenings.flatMap Happening.arrivals) (stretches happenings) := by
  induction happenings generalizing line with
  | nil =>
    rw [List.flatMap_nil, stretches_nil]
    exact .ended h
  | cons happening rest ih =>
    rw [List.flatMap_cons]
    cases happening with
    | data chunk =>
      rw [stretches_data]
      exact .chunk (stretches_ne_nil rest) (fun _ hline => ih hline) chunk h
    | interrupt =>
      rw [stretches_interrupt]
      exact .interrupt h (stretches_ne_nil rest) (ih (by simp))
    | otherSignal =>
      rw [stretches_otherSignal]
      exact .otherSignal (ih h)

/-- **Reading lines gives what arrived between interrupts, cut at line ends and nowhere else.**

Whatever happens while the reader waits, in chunks cut anywhere and among signals of both kinds, the
results of reading are, for each stretch of bytes between interrupts, its complete lines, and then: an
interrupt, which drops what follows the last line end; or, for the last stretch, what follows its last
line end as a line, if that is not empty. After that there is only the end of the input. Each result
leaves no interrupt to be asked about, and signals of the other kind might as well not have been. -/
theorem readLines_stretches (happenings : List Happening) :
    let arrivals := happenings.flatMap Happening.arrivals
    let events := eventsOf (stretches happenings)
    (∀ n, readLines n false arrivals = (events ++ List.replicate n ReadEvent.endOfInput).take n) ∧
    Yields [] arrivals events ∧
    ∀ n, readLines n false arrivals =
      readLines n false ((happenings.filter (· ≠ .otherSignal)).flatMap Happening.arrivals) := by
  intro arrivals events
  have hyields (happenings : List Happening) :
      Yields [] (happenings.flatMap Happening.arrivals) (eventsOf (stretches happenings)) :=
    ReadsAs.start.mp (readsAs_stretches happenings (by simp))
  refine ⟨readLines_of_yields (hyields happenings), hyields happenings, fun n => ?_⟩
  have hothers := hyields (happenings.filter (· ≠ .otherSignal))
  rw [stretches_filter] at hothers
  rw [readLines_of_yields (hyields happenings), readLines_of_yields hothers]

/-- A letter of two bytes cut in the middle with a signal between them, an interrupt that drops the
beginning of a line and no more, one where nothing was read, and a line that the input ends. -/
example :
    eventsOf (stretches [.data [97, 0xC3], .otherSignal, .data [0xA9, 10, 98], .interrupt, .interrupt,
        .data [10, 99]]) =
      [.line ['a', 'é'], .interrupted, .interrupted, .line [], .line ['c']] := by
  decide +kernel

end LineShell
