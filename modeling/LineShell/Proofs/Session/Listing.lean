import LineShell.Proofs.Session.Dispatch
import LineShell.Proofs.Text.Numeral
import LineShell.Proofs.Text.Utf8

/-!
# What `history` prints

* `Sink.print_eq`: texts that are written one after another, up to the first that is not taken whole,
  arrive like one text that is cut off where the room ends.
* `History.flatten_listing`: the last entries are listed under the numbers that they have in the whole listing.
* `History.Asks`: how many entries an argument asks for.
* `Builtin.history_prints_last`: so `history` prints the end of the whole listing, as far as the output
  takes it, and succeeds exactly if it is taken whole; with any other argument it prints nothing.
-/

namespace LineShell

/-! ## Output that runs out of room -/

namespace Sink

/-- The room is enough for some bytes. -/
def fits (out : Sink) (bytes : Bytes) : Bool :=
  out.room.all (bytes.length ≤ ·)

/-- The sink after bytes were written as far as there was room. -/
def after (out : Sink) (bytes : Bytes) : Sink :=
  ⟨out.room.map (· - bytes.length), out.received ++ out.room.elim bytes (bytes.take ·)⟩

/-- Why a write of some bytes would fail. -/
def fault? (out : Sink) (bytes : Bytes) : Option Errno :=
  if out.fits bytes then none else some .noSpace

theorem write_eq (out : Sink) (bytes : Bytes) :
    write bytes out = (out.fault? bytes, out.after bytes) := by
  obtain ⟨room, received⟩ := out
  cases room with
  | none => rfl
  | some room => simp [write, fault?, fits, after]

theorem fits_nil (out : Sink) : out.fits [] = true := by
  obtain ⟨room, received⟩ := out
  cases room <;> simp [fits]

theorem after_nil (out : Sink) : out.after [] = out := by
  obtain ⟨room, received⟩ := out
  cases room <;> simp [after]

/-- What fits is followed by what comes after it. -/
theorem append_of_fits {out : Sink} {bytes : Bytes} (h : out.fits bytes = true) (more : Bytes) :
    out.fits (bytes ++ more) = (out.after bytes).fits more ∧
      out.after (bytes ++ more) = (out.after bytes).after more := by
  obtain ⟨room, received⟩ := out
  cases room with
  | none => simp [fits, after]
  | some room =>
    have hle : bytes.length ≤ room := by simpa [fits] using h
    have hroom : bytes.length + more.length ≤ room ↔ more.length ≤ room - bytes.length := by omega
    constructor
    · simp [fits, after, hroom]
    · simp [after, List.take_append, List.take_of_length_le hle, Nat.sub_sub]

/-- What does not fit leaves no room for anything after it. -/
theorem append_of_not_fits {out : Sink} {bytes : Bytes} (h : out.fits bytes = false) (more : Bytes) :
    out.fits (bytes ++ more) = false ∧ out.after (bytes ++ more) = out.after bytes := by
  obtain ⟨room, received⟩ := out
  cases room with
  | none => exact absurd h (by simp [fits])
  | some room =>
    have hlt : room < bytes.length := by simpa [fits] using h
    have hfull : room - bytes.length = 0 := by omega
    have hmore : room - (bytes.length + more.length) = 0 := by omega
    constructor
    · have hlonger : room < bytes.length + more.length := by omega
      simpa [fits] using hlonger
    · simp [after, List.take_append_of_le_length (Nat.le_of_lt hlt), hfull, hmore]

/-- **Texts written one after another arrive like one text**, cut off where the room ends. -/
theorem print_eq (texts : List Text) (out : Sink) :
    writer.print texts out =
      (out.fault? (Utf8.encode texts.flatten), out.after (Utf8.encode texts.flatten)) := by
  have hall : writer.writeAll texts out =
      (out.fault? (Utf8.encode texts.flatten), out.after (Utf8.encode texts.flatten)) := by
    induction texts generalizing out with
    | nil =>
      have hnil : Utf8.encode ([] : List Text).flatten = [] := rfl
      rw [Writer.writeAll, hnil, fault?, fits_nil, after_nil]
      rfl
    | cons text rest ih =>
      have hwrite : writer.write (Utf8.encode text) out =
          (out.fault? (Utf8.encode text), out.after (Utf8.encode text)) := write_eq out _
      rw [Writer.writeAll, hwrite, List.flatten_cons, Utf8.encode_append]
      unfold fault?
      cases hfits : out.fits (Utf8.encode text) with
      | true =>
        obtain ⟨hboth, hafter⟩ := append_of_fits hfits (Utf8.encode rest.flatten)
        rw [hboth, hafter]
        exact ih _
      | false =>
        obtain ⟨hboth, hafter⟩ := append_of_not_fits hfits (Utf8.encode rest.flatten)
        rw [hboth, hafter]
        rfl
  unfold Writer.print
  rw [hall]
  unfold fault?
  cases out.fits (Utf8.encode texts.flatten) <;> rfl

end Sink

/-! ## The listing -/

namespace History

/-- The listed form of one entry: its number in at least five columns, two blanks, the line. -/
def listed (number : Nat) (line : Text) : Text :=
  Text.padLeft 5 (Text.ofNat number) ++ ' ' :: ' ' :: line ++ ['\n']

/-- The parts in which an entry is written make up its listed form. -/
theorem flatten_listedParts (number : Nat) (line : Text) :
    (listedParts number line).flatten = listed number line := by
  unfold listedParts listed
  simp

/-- The listed forms of all entries, oldest first. -/
def lines (h : History) : List Text :=
  (h.entries.zipIdx 1).map fun (line, number) => listed number line

/-- **Entries keep their numbers** when only the last of them are listed. -/
theorem flatten_listing (h : History) (count : Option Nat) :
    (h.listing count).flatten = (h.lines.drop (count.elim 0 (h.entries.length - ·))).flatten := by
  have hparts (entries : List (Text × Nat)) :
      (entries.flatMap fun (line, number) => listedParts number line).flatten =
        (entries.map fun (line, number) => listed number line).flatten := by
    induction entries with
    | nil => rfl
    | cons entry rest ih =>
      rw [List.flatMap_cons, List.flatten_append, ih, flatten_listedParts, List.map_cons, List.flatten_cons]
  unfold listing
  rw [hparts]
  congr 1
  unfold numbered lines
  apply List.ext_getElem?
  intro i
  rw [List.getElem?_drop, List.getElem?_map, List.getElem?_map, List.getElem?_zipIdx,
    List.getElem?_zipIdx, List.getElem?_drop]
  simp only [Option.map_map]
  congr 1
  funext line
  simp only [Function.comp]
  congr 1
  omega

/-- How many of the last entries an argument asks for: all of them where there is no argument. -/
inductive Asks : Option Text → Option Nat → Prop where
  | all : Asks none none
  | last {text : Text} {count : Nat} (denotes : Text.Denotes text count) : Asks (some text) (some count)

end History

/-! ## The built-in -/

namespace Builtin

/-- Listing entries, with all that comes of it. -/
theorem run_history_of_asks {argument : Option Text} {count : Option Nat}
    (h : History.Asks argument count) (s : Session) (out : Sink) :
    let bytes := Utf8.encode (s.history.listing count).flatten
    (Builtin.history argument).run s out =
      ⟨if out.fits bytes then 0 else 1,
        if out.fits bytes then none else some ("history: ".toList ++ Errno.noSpace.describe), s,
        out.after bytes⟩ := by
  intro bytes
  have hcount : (Builtin.history argument).count? = some count := by
    cases h with
    | all => rfl
    | last denotes => exact Option.map_eq_some_iff.mpr ⟨_, Text.count?_eq_some_iff.mpr denotes, rfl⟩
  unfold run
  rw [perform_of_count Sink.writer hcount, listed_eq, Sink.print_eq]
  change (⟨if (out.fault? bytes).isSome then 1 else 0, (out.fault? bytes).map _, s, out.after bytes⟩ :
    Result Sink) = _
  unfold Sink.fault?
  cases out.fits bytes <;> rfl

theorem run_history_of_no_count {text : Text} (h : ∀ count, ¬ Text.Denotes text count) (s : Session)
    (out : Sink) :
    (Builtin.history (some text)).run s out = ⟨2, some (numberRequired "history" text), s, out⟩ := by
  simp only [run, perform, Text.count?_eq_none_iff.mpr h]

/-- **`history` prints the end of the whole listing, as far as the output takes it.**

The whole listing holds, for each entry in order, its number in at least five columns, two blanks, the
entry and a line end. What is to be printed is the part of it for the last entries, as many as the argument
asks for and there are; all of them without an argument. An output that takes so many bytes receives the
first ones, as many as that, and one without a bound receives all; the status is 0 if that is everything,
and 1 otherwise. With an argument that is no count nothing is printed, and the status is 2. The session
stays as it is. -/
theorem history_prints_last (s : Session) (argument : Option Text) (room : Option Nat)
    (received : Bytes) :
    let size := s.history.entries.length
    let result := (Builtin.history argument).run s ⟨room, received⟩
    result.session = s ∧
    (∀ count, History.Asks argument count →
      let kept := count.elim size (min · size)
      let earlier := (s.history.lines.take (size - kept)).flatten
      let text := (s.history.lines.drop (size - kept)).flatten
      let bytes := Utf8.encode text
      s.history.lines.flatten = earlier ++ text ∧
      result.out.received = received ++ room.elim bytes (bytes.take ·) ∧
      (result.status = 0 ∨ result.status = 1) ∧
      (result.status = 0 ↔ ∀ r, room = some r → bytes.length ≤ r)) ∧
    ∀ text, argument = some text → (∀ count, ¬ Text.Denotes text count) →
      result.out = ⟨room, received⟩ ∧ result.status = 2 := by
  intro size result
  refine ⟨?_, fun count hasks => ?_, fun text hargument hnone => ?_⟩
  · cases argument with
    | none => exact congrArg Result.session (run_history_of_asks .all s ⟨room, received⟩)
    | some text =>
      by_cases hcount : ∃ count, Text.Denotes text count
      · obtain ⟨count, hdenotes⟩ := hcount
        exact congrArg Result.session (run_history_of_asks (.last hdenotes) s ⟨room, received⟩)
      · have hnone : ∀ count, ¬ Text.Denotes text count := not_exists.mp hcount
        exact congrArg Result.session (run_history_of_no_count hnone s ⟨room, received⟩)
  · intro kept earlier text bytes
    have hstart : count.elim 0 (size - ·) = size - kept := by
      cases count with
      | none => exact (Nat.sub_self size).symm
      | some n =>
        change size - n = size - min n size
        omega
    have hbytes : Utf8.encode (s.history.listing count).flatten = bytes := by
      rw [History.flatten_listing, hstart]
    have hresult := run_history_of_asks hasks s ⟨room, received⟩
    rw [hbytes] at hresult
    change result = _ at hresult
    have hfits : Sink.fits ⟨room, received⟩ bytes = true ↔ ∀ r, room = some r → bytes.length ≤ r := by
      simp [Sink.fits, Option.all_eq_true]
    refine ⟨?_, ?_, ?_, ?_⟩
    · rw [← List.flatten_append, List.take_append_drop]
    · rw [hresult]
      rfl
    · rw [hresult]
      by_cases h : Sink.fits ⟨room, received⟩ bytes = true
      · exact Or.inl (if_pos h)
      · exact Or.inr (if_neg h)
    · rw [hresult, ← hfits]
      by_cases h : Sink.fits ⟨room, received⟩ bytes = true
      · simp [h]
      · simp [h]
  · have hresult := run_history_of_no_count hnone s ⟨room, received⟩
    rw [← hargument] at hresult
    change result = _ at hresult
    rw [hresult]
    exact ⟨rfl, rfl⟩

/-- The last two of three entries, on an output that breaks off in the last one; and an argument with a
minus sign. -/
theorem history_prints_last_cut_off :
    let s : Session := ⟨⟨["ls", "λ", "pwd"].map String.toList, 100⟩, 3, false⟩
    let result := (Builtin.history (some "+2".toList)).run s ⟨some 13, []⟩
    result.session = s ∧
      result.out.received = Utf8.encode "    2  λ\n   ".toList ∧ result.status ≠ 0 ∧
      ((Builtin.history (some "-1".toList)).run s ⟨some 13, []⟩).out = ⟨some 13, []⟩ := by
  intro s
  have hasks : History.Asks (some "+2".toList) (some 2) :=
    .last (Text.count?_eq_some_iff.mp (by decide))
  have hnone : ∀ count, ¬ Text.Denotes "-1".toList count := Text.count?_eq_none_iff.mp (by decide)
  obtain ⟨hsession, hprinted, -⟩ := history_prints_last s (some "+2".toList) (some 13) []
  obtain ⟨-, hreceived, -, hstatus⟩ := hprinted (some 2) hasks
  obtain ⟨-, -, hrefused⟩ := history_prints_last s (some "-1".toList) (some 13) []
  refine ⟨hsession, hreceived.trans (by decide), ?_, (hrefused "-1".toList rfl hnone).1⟩
  intro hzero
  have hlength := hstatus.mp hzero 13 rfl
  exact absurd hlength (by decide)

end Builtin

end LineShell
