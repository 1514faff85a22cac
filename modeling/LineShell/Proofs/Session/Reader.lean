import LineShell.Session.Reader

/-!
# What reading a line takes

Here reads bring bytes and are broken off by a signal now and then, and the input ends when they are
used up (`Arrival.Steady`).

* `Bytes.firstLine`: an input up to and including its first line end; all of it if it has none.
* `Reading.Takes`: what a reading may come to. A line takes the first line of the bytes to come, and is
  its text. The input is over only where no byte is to come. An interrupted reading takes the beginning
  of a line.
* `readLine_takes`: that is what a reading comes to.
-/

namespace LineShell

/-- The byte that a read brings. -/
def Arrival.byte? : Arrival → Option UInt8
  | .byte value => some value
  | .endOfInput | .signal _ | .failed _ => none

/-- A read brings a byte, or a signal breaks it off. -/
def Arrival.Steady : Arrival → Prop
  | .byte _ | .signal _ => True
  | .endOfInput | .failed _ => False

/-- The bytes that reads bring. -/
def bytesOf (arrivals : List Arrival) : Bytes :=
  arrivals.filterMap Arrival.byte?

@[simp] theorem bytesOf_nil : bytesOf [] = [] := rfl

@[simp] theorem bytesOf_byte (b : UInt8) (rest : List Arrival) :
    bytesOf (.byte b :: rest) = b :: bytesOf rest := rfl

@[simp] theorem bytesOf_signal (interrupt : Bool) (rest : List Arrival) :
    bytesOf (.signal interrupt :: rest) = bytesOf rest := rfl

theorem bytesOf_append (arrivals rest : List Arrival) :
    bytesOf (arrivals ++ rest) = bytesOf arrivals ++ bytesOf rest :=
  List.filterMap_append

namespace Bytes

/-- The bytes before the first line end. -/
def beforeLineEnd (input : Bytes) : Bytes :=
  input.takeWhile (· ≠ 10)

/-- The bytes up to and including the first line end; all of them if there is none. -/
def firstLine (input : Bytes) : Bytes :=
  beforeLineEnd input ++ (input.dropWhile (· ≠ 10)).take 1

theorem beforeLineEnd_cons {b : UInt8} (h : b ≠ 10) (rest : Bytes) :
    beforeLineEnd (b :: rest) = b :: beforeLineEnd rest := by
  simp [beforeLineEnd, h]

theorem firstLine_cons {b : UInt8} (h : b ≠ 10) (rest : Bytes) :
    firstLine (b :: rest) = b :: firstLine rest := by
  simp [firstLine, beforeLineEnd, h]

/-- The first line of an input that is not over has a byte. -/
theorem firstLine_ne_nil {input : Bytes} (h : input ≠ []) : firstLine input ≠ [] := by
  obtain ⟨b, rest, rfl⟩ := List.exists_cons_of_ne_nil h
  by_cases hb : b = 10
  · simp [firstLine, beforeLineEnd, hb]
  · rw [firstLine_cons hb]
    exact List.cons_ne_nil _ _

end Bytes

/-- What a reading may come to when `line`, last byte first, has been read before and `arrivals` are to
come; `made` are the reads that were made. -/
inductive Reading.Takes (line : Bytes) (arrivals made : List Arrival) : ReadEvent → Prop where
  | line : line ++ bytesOf arrivals ≠ [] → bytesOf made = Bytes.firstLine (bytesOf arrivals) →
      Takes line arrivals made
        (.line (Utf8.decodeLossy (line.reverse ++ Bytes.beforeLineEnd (bytesOf arrivals))))
  | endOfInput : line = [] → bytesOf arrivals = [] → Takes line arrivals made .endOfInput
  | interrupted {interrupt : Bool} : .signal interrupt ∈ made → 10 ∉ bytesOf made →
      Takes line arrivals made .interrupted

/-- One byte more of a line. -/
theorem Reading.Takes.byte {line : Bytes} {arrivals made : List Arrival} {event : ReadEvent} {b : UInt8}
    (hb : b ≠ 10) (h : Takes (b :: line) arrivals made event) :
    Takes line (.byte b :: arrivals) (.byte b :: made) event := by
  cases h with
  | line _ hmade =>
    rw [List.reverse_cons, List.append_assoc, List.singleton_append, ← Bytes.beforeLineEnd_cons hb]
    refine .line (by simp) ?_
    rw [bytesOf_byte, bytesOf_byte, Bytes.firstLine_cons hb, hmade]
  | endOfInput hline => exact absurd hline (by simp)
  | interrupted hsignal hmade =>
    refine .interrupted (List.mem_cons_of_mem _ hsignal) ?_
    rw [bytesOf_byte, List.mem_cons]
    rintro (rfl | hmem)
    · exact hb rfl
    · exact hmade hmem

/-- A signal that changes nothing. -/
theorem Reading.Takes.signal {line : Bytes} {arrivals made : List Arrival} {event : ReadEvent}
    (h : Takes line arrivals made event) (interrupt : Bool) :
    Takes line (.signal interrupt :: arrivals) (.signal interrupt :: made) event := by
  cases h with
  | line hne hmade => exact .line hne hmade
  | endOfInput hline hbytes => exact .endOfInput hline hbytes
  | interrupted hsignal hmade => exact .interrupted (List.mem_cons_of_mem _ hsignal) hmade

/-- Where the reads are used up, the input ends, and what was read of a line is a line. -/
theorem atEnd_takes (line : Bytes) : Reading.Takes line [] [] (.atEnd line) := by
  cases line with
  | nil => exact .endOfInput rfl rfl
  | cons b line =>
    have h : Reading.Takes (b :: line) [] []
        (.line (Utf8.decodeLossy ((b :: line).reverse ++ Bytes.beforeLineEnd []))) :=
      .line (by simp) rfl
    rwa [show Bytes.beforeLineEnd [] = [] from rfl, List.append_nil] at h

theorem readOn_takes (pending : Bool) (line : Bytes) {arrivals : List Arrival}
    (h : ∀ arrival ∈ arrivals, arrival.Steady) :
    let reading := readOn pending line arrivals
    reading.failure = none ∧
      ∃ made, arrivals = made ++ reading.rest ∧ Reading.Takes line arrivals made reading.event := by
  induction arrivals generalizing line with
  | nil => exact ⟨rfl, [], rfl, atEnd_takes line⟩
  | cons arrival rest ih =>
    have hrest := fun line => ih line fun other hother => h other (List.mem_cons_of_mem _ hother)
    have hsteady := h arrival List.mem_cons_self
    cases arrival with
    | byte b =>
      rw [readOn]
      by_cases hb : b = 10
      · subst hb
        have hline : Reading.Takes line (.byte 10 :: rest) [.byte 10]
            (.line (Utf8.decodeLossy (line.reverse ++ []))) := .line (by simp) rfl
        rw [List.append_nil] at hline
        exact ⟨rfl, [.byte 10], rfl, hline⟩
      · rw [if_neg hb]
        obtain ⟨hfailure, made, hmade, htakes⟩ := hrest (b :: line)
        exact ⟨hfailure, .byte b :: made, congrArg _ hmade, htakes.byte hb⟩
    | signal interrupt =>
      rw [readOn]
      by_cases hp : (pending || interrupt) = true
      · rw [if_pos hp]
        exact ⟨rfl, [.signal interrupt], rfl, .interrupted List.mem_cons_self (by simp)⟩
      · rw [if_neg hp]
        obtain ⟨hfailure, made, hmade, htakes⟩ := hrest line
        exact ⟨hfailure, .signal interrupt :: made, congrArg _ hmade, htakes.signal interrupt⟩
    | endOfInput => exact hsteady.elim
    | failed errno => exact hsteady.elim

/-- **A reading stops at the first line end**, or where the input ends or an interrupt breaks it off. -/
theorem readLine_takes (pending : Bool) {arrivals : List Arrival}
    (h : ∀ arrival ∈ arrivals, arrival.Steady) :
    let reading := readLine pending arrivals
    reading.failure = none ∧
      ∃ made, arrivals = made ++ reading.rest ∧ Reading.Takes [] arrivals made reading.event :=
  readOn_takes pending [] h

end LineShell
