import LineShell.Proofs.Session.Stretches
import LineShell.Proofs.Text.Lines
import LineShell.Proofs.Text.Utf8

/-!
# Lines read from a file

Lines are cut among bytes, and each is decoded by itself. It makes no difference whether the whole file is
decoded first and its text is cut.

* `linesAt_decodeLossy`: decoding commutes with cutting at line ends.
* `readLines_data`: reading a file to its end gives its lines.
* `readLines_decoded`: so it gives the lines of its text.
-/

namespace LineShell

/-- **Decoding commutes with cutting at line ends.** -/
theorem linesAt_decodeLossy (content : Bytes) :
    linesAt '\n' (Utf8.decodeLossy content) = (linesAt 10 content).map Utf8.decodeLossy := by
  induction content using lines_induct (10 : UInt8) with
  | unfinished line h =>
    rw [linesAt_of_not_mem h, linesAt_of_not_mem (Utf8.newline_not_mem_decodeLossy h)]
    by_cases hline : line = []
    · rw [if_pos hline, if_pos (Utf8.decodeLossy_eq_nil_iff.mpr hline)]
      rfl
    · rw [if_neg hline, if_neg (mt Utf8.decodeLossy_eq_nil_iff.mp hline)]
      rfl
  | finished line rest h ih =>
    rw [Utf8.decodeLossy_append_newline, linesAt_append_cons h,
      linesAt_append_cons (Utf8.newline_not_mem_decodeLossy h), ih]
    rfl

/-- What is read of a stretch that the input ends is its lines. -/
theorem eventsOf_singleton (content : Bytes) : eventsOf [content] = lineEvents (linesAt 10 content) := by
  induction content using lines_induct (10 : UInt8) with
  | unfinished line h =>
    rw [eventsOf_last h, linesAt_of_not_mem h]
    split <;> rfl
  | finished line rest h ih =>
    have hlater := eventsOf_lineEnd h (List.cons_ne_nil rest [])
    rw [List.modifyHead_cons] at hlater
    rw [hlater, ih, linesAt_append_cons h]
    rfl

/-- Reading a file gives its lines, and then the end of the input for ever. -/
theorem readLines_data (content : Bytes) (n : Nat) :
    readLines n false (content.map .byte) =
      (lineEvents (linesAt 10 content) ++ List.replicate n ReadEvent.endOfInput).take n := by
  have hread := ReadsAs.start.mp (readsAs_stretches [.data content] (by simp))
  rw [stretches_data, stretches_nil, List.modifyHead_cons, List.append_nil, eventsOf_singleton,
    List.flatMap_singleton] at hread
  exact readLines_of_yields hread n

/-- **Decoding lines is the same as cutting decoded text.**

What a file is read as, line by line, are the lines of its text, and then the end of the input for ever. The
text is what the rule makes of the whole file. Each line is that of one line of bytes, of which there are as
many as line ends and something behind the last one. The text is had back from its lines, up to a last line
end; and where the file holds a text, it is this. -/
theorem readLines_decoded (content : Bytes) :
    let text := Utf8.decodeLossy content
    let lines := linesAt '\n' text
    (∃ items, (∀ other, Utf8.Decodes content other ↔ other = items) ∧
      text = items.map fun item => item.getD '\uFFFD') ∧
    (∀ n, readLines n false (content.map .byte) =
      (lines.map ReadEvent.line ++ List.replicate n ReadEvent.endOfInput).take n) ∧
    lines = (linesAt 10 content).map Utf8.decodeLossy ∧
    lines.length = content.count 10 + (if content = [] ∨ content.getLast? = some 10 then 0 else 1) ∧
    text = ['\n'].intercalate lines ++ (if text.getLast? = some '\n' then ['\n'] else []) ∧
    ∀ whole, content = Utf8.encode whole → text = whole ∧
      content = Utf8.encode (['\n'].intercalate lines) ++
        (if content.getLast? = some 10 then [10] else []) := by
  intro text lines
  have hlines : lines = (linesAt 10 content).map Utf8.decodeLossy := linesAt_decodeLossy content
  refine ⟨⟨Utf8.items .start content, fun other => ⟨fun h => ?_, ?_⟩, rfl⟩, fun n => ?_, hlines, ?_, ?_, ?_⟩
  · exact h.unique (Utf8.decodes_items content)
  · rintro rfl
    exact Utf8.decodes_items content
  · rw [readLines_data, hlines, lineEvents, List.map_map]
    rfl
  · rw [hlines, List.length_map, length_linesAt]
  · exact (intercalate_linesAt '\n' text).symm
  · rintro whole rfl
    have htext : text = whole := Utf8.decodeLossy_encode whole
    refine ⟨htext, ?_⟩
    have hjoined := congrArg Utf8.encode (intercalate_linesAt '\n' text)
    rw [Utf8.encode_append] at hjoined
    simp only [Utf8.getLast?_encode, ← htext]
    rw [← hjoined]
    split <;> rfl

/-- A letter that is cut off by a line end, an empty line, and a letter that is cut off by the end of the
file; and a text of two lines, the last one finished. -/
theorem readLines_decoded_cut_letters :
    let cut : Bytes := [97, 0xE2, 0x82, 10, 10, 0xF0, 0x9F]
    let whole : Text := ['é', '\n', 'b', '\n']
    Utf8.decodeLossy cut = ['a', '\uFFFD', '\n', '\n', '\uFFFD'] ∧
      readLines 4 false (cut.map .byte) =
        [.line ['a', '\uFFFD'], .line [], .line ['\uFFFD'], .endOfInput] ∧
      Utf8.encode whole = [0xC3, 0xA9, 10, 98, 10] ∧ linesAt '\n' whole = [['é'], ['b']] ∧
      Utf8.encode whole = Utf8.encode (['\n'].intercalate (linesAt '\n' whole)) ++ [10] := by
  intro cut whole
  obtain ⟨-, hread, -⟩ := readLines_decoded cut
  obtain ⟨-, -, -, -, -, hwhole⟩ := readLines_decoded (Utf8.encode whole)
  obtain ⟨htext, hrecovered⟩ := hwhole whole rfl
  rw [htext] at hrecovered
  refine ⟨by decide +kernel, (hread 4).trans (by decide +kernel), by decide +kernel, by decide +kernel, ?_⟩
  exact hrecovered.trans (by decide +kernel)

end LineShell
