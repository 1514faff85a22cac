import LineShell.Proofs.Text.Octets
import Mathlib.Data.List.Basic

/-!
# Reading UTF-8 by the rule

What is no character is reported once for each **maximal malformed beginning**: the longest bytes at that
place that begin a character, or a single byte where none do. The rule says nothing of how bytes are read;
the machine looks at one byte after another, and at none of them more than twice.

* `Decodes bytes items`: the items of bytes by the rule.
* `Expects`: a state inside a character fits what was read of it. `leads_lead` says that for a first byte, and
  `Expects.next` for each further one.
* `decodes_items`: the machine reads by the rule; and `Decodes.unique`: there is one way to do so.
* `Decodes.append_newline`: reading starts anew behind each line end. No beginning of a character swallows
  one, since no character but the line end has its byte (`eq_newline_of_mem`).
-/

namespace LineShell.Utf8

/-! ## Inside a character -/

/-- A state inside a character fits what was read of it. What the state lets in next is what can come next,
and then continuing bytes in the number owed complete a character, whose number they make of the bits. -/
structure Expects (part : Bytes) (more : Nat) (low high : UInt8) (bits : Nat) : Prop where
  complete : ∀ {b rest c}, part ++ b :: rest = String.utf8EncodeChar c → (low ≤ b ∧ b ≤ high) ∧
    rest.length = more ∧ (∀ x ∈ rest, Continues x) ∧ c.toNat = value bits (b :: rest)
  exists_char : ∀ b rest, low ≤ b → b ≤ high → rest.length = more → (∀ x ∈ rest, Continues x) →
    ∃ c, part ++ b :: rest = String.utf8EncodeChar c
  low_le_high : low ≤ high
  ne_nil : part ≠ []

theorem Expects.of_spells {b low high : UInt8} {n bits : Nat} (hb : b.toNat = mark (n + 1) + bits)
    (hle : low ≤ high) (hlen : ∀ {tail v}, Spells b tail v → tail.length = n + 1)
    (hrange : ∀ {x rest}, rest.length = n → (∀ y ∈ rest, Continues y) →
      (low ≤ x ∧ x ≤ high ↔ Spells b (x :: rest) (value bits (x :: rest)))) :
    Expects [b] n low high bits where
  complete {x rest c} h := by
    have hspells : Spells b (x :: rest) c.toNat := cons_eq_utf8EncodeChar_iff.mp h
    have hrest : rest.length = n := Nat.succ.inj (hlen hspells)
    have hcontinues : ∀ y ∈ rest, Continues y := fun y hy => hspells.continues y (List.mem_cons_of_mem x hy)
    have hv := hspells.value_eq
    rw [hlen hspells, hb, Nat.add_sub_cancel_left] at hv
    exact ⟨(hrange hrest hcontinues).mpr (hv ▸ hspells), hrest, hcontinues, hv⟩
  exists_char _ _ hlow hhigh hrest hcontinues := ((hrange hrest hcontinues).mp ⟨hlow, hhigh⟩).exists_char
  low_le_high := hle
  ne_nil := List.cons_ne_nil b []

theorem continues_iff {b : UInt8} : 0x80 ≤ b ∧ b ≤ 0xBF ↔ Continues b := by
  rw [UInt8.le_iff_toNat_le, UInt8.le_iff_toNat_le, Continues]
  change 0x80 ≤ b.toNat ∧ b.toNat ≤ 0xBF ↔ _
  omega

section

variable {b low high : UInt8} {bits : Nat}

theorem expects_one (hb : b.toNat = 0xC0 + bits) (hbits : 2 ≤ bits ∧ bits < 0x20) :
    Expects [b] 0 0x80 0xBF bits := by
  refine .of_spells hb (by decide) (fun h => ?_) (fun {x rest} hrest _ => ?_)
  · have := h.lead_cases
    omega
  · obtain rfl := List.length_eq_zero_iff.mp hrest
    rw [spells_one, continues_iff, Continues, value_cons, value_nil]
    omega

/-- The second byte keeps out numbers that fewer bytes spell, and those that are no characters. -/
theorem expects_two (hb : b.toNat = 0xE0 + bits) (hbits : bits < 0x10) (hle : low ≤ high)
    (hrange : ∀ x : UInt8, low.toNat ≤ x.toNat ∧ x.toNat ≤ high.toNat ↔ Continues x ∧
      0x20 ≤ bits * 64 + (x.toNat - 0x80) ∧
      ¬ (0x360 ≤ bits * 64 + (x.toNat - 0x80) ∧ bits * 64 + (x.toNat - 0x80) < 0x380)) :
    Expects [b] 1 low high bits := by
  refine .of_spells hb hle (fun h => ?_) (fun {x rest} hrest hcontinues => ?_)
  · have := h.lead_cases
    omega
  · obtain ⟨y, rfl⟩ := List.length_eq_one_iff.mp hrest
    have hy := hcontinues y List.mem_cons_self
    rw [UInt8.le_iff_toNat_le, UInt8.le_iff_toNat_le, hrange, spells_two, value_cons, value_cons, value_nil]
    unfold Continues at *
    omega

theorem expects_three (hb : b.toNat = 0xF0 + bits) (hle : low ≤ high)
    (hrange : ∀ x : UInt8, low.toNat ≤ x.toNat ∧ x.toNat ≤ high.toNat ↔ Continues x ∧
      0x10 ≤ bits * 64 + (x.toNat - 0x80) ∧ bits * 64 + (x.toNat - 0x80) < 0x110) :
    Expects [b] 2 low high bits := by
  refine .of_spells hb hle (fun h => ?_) (fun {x rest} hrest hcontinues => ?_)
  · have := h.lead_cases
    omega
  · obtain ⟨y, z, rfl⟩ := List.length_eq_two.mp hrest
    have hy := hcontinues y (by simp)
    have hz := hcontinues z (by simp)
    rw [UInt8.le_iff_toNat_le, UInt8.le_iff_toNat_le, hrange, spells_three]
    rw [value_cons, value_cons, value_cons, value_nil]
    unfold Continues at *
    omega

end

/-- What a first byte can lead to: a character, a malformed sequence, or a state that fits it. -/
inductive Leads (b : UInt8) : List Item × State → Prop where
  | single : b.toNat < 0x80 → Leads b ([some (Char.ofNat b.toNat)], .start)
  | malformed : (∀ tail v, ¬ Spells b tail v) → Leads b ([none], .start)
  | within {more low high bits} : Expects [b] more low high bits → Leads b ([], .within more low high bits)

/-- A choice leads to what its branches lead to. -/
theorem Leads.ite {b : UInt8} {p : Prop} [Decidable p] {yes no : List Item × State} (hyes : p → Leads b yes)
    (hno : ¬ p → Leads b no) : Leads b (if p then yes else no) := by
  by_cases h : p
  · rw [if_pos h]
    exact hyes h
  · rw [if_neg h]
    exact hno h

theorem leads_lead (b : UInt8) : Leads b (lead b) := by
  have hb := b.toNat_lt
  have hnone (h : 0x80 ≤ b.toNat ∧ b.toNat < 0xC2 ∨ 0xF5 ≤ b.toNat) : ∀ tail v, ¬ Spells b tail v := by
    intro tail v hspells
    have := hspells.lead_cases
    omega
  unfold lead
  simp only [UInt8.lt_iff_toNat_lt, beq_iff_eq, ← UInt8.toNat_inj, UInt8.reduceToNat]
  refine .ite .single fun _ => ?_
  refine .ite (fun _ => .malformed (hnone (by omega))) fun _ => ?_
  refine .ite (fun _ => .within (expects_one (by omega) (by omega))) fun _ => ?_
  -- three bytes: those that fewer would do for, the surrogates, and the others
  refine .ite (fun _ => .within (expects_two (by omega) (by decide) (by decide) fun x => ?_)) fun _ => ?_
  · simp only [Continues, UInt8.reduceToNat]
    omega
  refine .ite (fun _ => .within (expects_two (by omega) (by decide) (by decide) fun x => ?_)) fun _ => ?_
  · simp only [Continues, UInt8.reduceToNat]
    omega
  refine .ite (fun _ => .within (expects_two (by omega) (by omega) (by decide) fun x => ?_)) fun _ => ?_
  · simp only [Continues, UInt8.reduceToNat]
    omega
  -- four bytes: those that fewer would do for, the others, and the last plane
  refine .ite (fun _ => .within (expects_three (by omega) (by decide) fun x => ?_)) fun _ => ?_
  · simp only [Continues, UInt8.reduceToNat]
    omega
  refine .ite (fun _ => .within (expects_three (by omega) (by decide) fun x => ?_)) fun _ => ?_
  · simp only [Continues, UInt8.reduceToNat]
    omega
  refine .ite (fun _ => .within (expects_three (by omega) (by decide) fun x => ?_)) fun _ => ?_
  · simp only [Continues, UInt8.reduceToNat]
    omega
  · exact .malformed (hnone (by omega))

theorem Expects.next {part : Bytes} {more : Nat} {low high b : UInt8} {bits : Nat}
    (h : Expects part (more + 1) low high bits) (hb : low ≤ b ∧ b ≤ high) :
    Expects (part ++ [b]) more 0x80 0xBF (bits * 64 + (b.toNat - 0x80)) where
  complete {x rest c} hc := by
    rw [List.append_assoc, List.singleton_append] at hc
    obtain ⟨-, hlen, hcontinues, hv⟩ := h.complete hc
    rw [List.forall_mem_cons] at hcontinues
    rw [value_cons] at hv
    exact ⟨continues_iff.mpr hcontinues.1, Nat.succ.inj hlen, hcontinues.2, hv⟩
  exists_char x rest hlow hhigh hlen hcontinues := by
    have hx : Continues x := continues_iff.mp ⟨hlow, hhigh⟩
    rw [List.append_assoc, List.singleton_append]
    refine h.exists_char b _ hb.1 hb.2 ?_ (List.forall_mem_cons.mpr ⟨hx, hcontinues⟩)
    rw [List.length_cons, hlen]
  low_le_high := by decide
  ne_nil := by simp

section

variable {part : Bytes} {more : Nat} {low high b : UInt8} {bits : Nat}

/-- The last byte owed completes the character that the state makes of it. -/
theorem Expects.last (h : Expects part 0 low high bits) (hb : low ≤ b ∧ b ≤ high) :
    part ++ [b] = String.utf8EncodeChar (Char.ofNat (bits * 64 + (b.toNat - 0x80))) := by
  obtain ⟨c, hc⟩ := h.exists_char b [] hb.1 hb.2 rfl (by simp)
  obtain ⟨-, -, -, hv⟩ := h.complete hc
  rw [value_cons, value_nil] at hv
  rw [← hv, Char.ofNat_toNat]
  exact hc

end

/-! ## Reading by the rule -/

/-- What begins two lists put together is within the first, or goes on in the second. -/
theorem prefix_append_cases {bytes part rest : Bytes} (h : bytes <+: part ++ rest) :
    bytes <+: part ∨ ∃ b more, [b] <+: rest ∧ bytes = part ++ b :: more := by
  rcases List.prefix_or_prefix_of_prefix h (List.prefix_append part rest) with hprefix | ⟨later, rfl⟩
  · exact Or.inl hprefix
  · cases later with
    | nil =>
      rw [List.append_nil]
      exact Or.inl (List.prefix_refl part)
    | cons b more =>
      rw [List.prefix_append_right_inj] at h
      exact Or.inr ⟨b, more, (List.prefix_append [b] more).trans h, rfl⟩

/-- The bytes begin those of a character. -/
def Begins (part : Bytes) : Prop := ∃ c, part <+: String.utf8EncodeChar c

/-- **A maximal malformed beginning** of `part ++ rest`: no character begins there, and `part` is all that
could begin one, or a single byte. -/
structure Malformed (part rest : Bytes) : Prop where
  ne_nil : part ≠ []
  no_char : ∀ c, ¬ String.utf8EncodeChar c <+: part ++ rest
  begins : part.length = 1 ∨ Begins part
  maximal : ∀ b, [b] <+: rest → ¬ Begins (part ++ [b])

/-- Bytes read as items: the bytes of a character for each character, and a maximal malformed beginning
for each of the others. -/
inductive Decodes : Bytes → List Item → Prop where
  | nil : Decodes [] []
  | char (c : Char) {rest : Bytes} {items : List Item} (hrest : Decodes rest items) :
    Decodes (String.utf8EncodeChar c ++ rest) (some c :: items)
  | malformed {part rest : Bytes} {items : List Item} (hpart : Malformed part rest)
    (hrest : Decodes rest items) : Decodes (part ++ rest) (none :: items)

theorem Begins.of_append {part rest : Bytes} (h : Begins (part ++ rest)) : Begins part := by
  obtain ⟨c, hc⟩ := h
  exact ⟨c, (List.prefix_append part rest).trans hc⟩

theorem begins_cons_iff {b : UInt8} {tail : Bytes} :
    Begins (b :: tail) ↔ ∃ more v, Spells b (tail ++ more) v := by
  constructor
  · rintro ⟨c, more, hc⟩
    exact ⟨more, c.toNat, cons_eq_utf8EncodeChar_iff.mp hc⟩
  · rintro ⟨more, v, h⟩
    obtain ⟨c, hc⟩ := h.exists_char
    exact ⟨c, more, hc⟩

section

variable {part rest : Bytes} {more : Nat} {low high b : UInt8} {bits : Nat}

/-- What the state lets in next is what can come next. -/
theorem Expects.begins_iff (h : Expects part more low high bits) :
    Begins (part ++ [b]) ↔ low ≤ b ∧ b ≤ high := by
  constructor
  · rintro ⟨c, rest, hc⟩
    rw [List.append_assoc, List.singleton_append] at hc
    exact (h.complete hc).1
  · rintro ⟨hlow, hhigh⟩
    have hcontinues : ∀ x ∈ List.replicate more (0x80 : UInt8), Continues x := fun x hx =>
      continues_iff.mp (by rw [List.eq_of_mem_replicate hx]; decide)
    obtain ⟨c, hc⟩ := h.exists_char b _ hlow hhigh List.length_replicate hcontinues
    exact ⟨c, List.replicate more 0x80, by rw [← hc, List.append_assoc, List.singleton_append]⟩

/-- What was read of a character is no character yet. -/
theorem Expects.not_prefix (h : Expects part more low high bits) (c : Char) :
    ¬ String.utf8EncodeChar c <+: part := by
  rintro ⟨extra, hc⟩
  obtain ⟨d, later, hd⟩ := h.begins_iff.mpr ⟨Std.le_refl low, h.low_le_high⟩
  rw [← hc, List.append_assoc, List.append_assoc] at hd
  have hwhole : String.utf8EncodeChar c ++ (extra ++ ([low] ++ later)) = String.utf8EncodeChar d ++ [] := by
    rw [hd, List.append_nil]
  have hnothing := (utf8EncodeChar_append_inj hwhole).2
  simp at hnothing

/-- Where what comes next is not let in, what was read is malformed. -/
theorem Expects.malformed (h : Expects part more low high bits)
    (hnext : ∀ b, [b] <+: rest → ¬ (low ≤ b ∧ b ≤ high)) : Malformed part rest where
  ne_nil := h.ne_nil
  no_char c hc := by
    rcases prefix_append_cases hc with hprefix | ⟨b, more, hb, hwhole⟩
    · exact h.not_prefix c hprefix
    · exact hnext b hb (h.complete hwhole.symm).1
  begins := Or.inr (h.begins_iff.mpr ⟨Std.le_refl low, h.low_le_high⟩).of_append
  maximal b hb := mt h.begins_iff.mp (hnext b hb)

/-- A byte that begins no character is malformed by itself. -/
theorem malformed_singleton (h : ∀ tail v, ¬ Spells b tail v) : Malformed [b] rest where
  ne_nil := List.cons_ne_nil b []
  no_char c hc := by
    cases henc : String.utf8EncodeChar c with
    | nil => exact absurd henc String.utf8EncodeChar_ne_nil
    | cons first tail =>
      rw [henc] at hc
      obtain ⟨rfl, -⟩ := List.cons_prefix_cons.mp hc
      exact h tail c.toNat (cons_eq_utf8EncodeChar_iff.mp henc.symm)
  begins := Or.inl rfl
  maximal x _ hx := by
    obtain ⟨more, v, hspells⟩ := begins_cons_iff.mp hx
    exact h _ v hspells

end

/-- **The machine reads by the rule**, between characters and inside one. -/
theorem decodes_items_within (bytes : Bytes) : Decodes bytes (items .start bytes) ∧
    ∀ {part more low high bits}, Expects part more low high bits →
      Decodes (part ++ bytes) (items (.within more low high bits) bytes) := by
  induction bytes with
  | nil => exact ⟨.nil, fun h => .malformed (h.malformed (by simp)) .nil⟩
  | cons b rest ih =>
    obtain ⟨hrest, hwithin⟩ := ih
    have hstart : Decodes (b :: rest) (items .start (b :: rest)) := by
      rw [items, step]
      generalize hled : lead b = led
      have hleads := leads_lead b
      rw [hled] at hleads
      cases hleads with
      | single hb =>
        obtain ⟨c, hc⟩ := (spells_nil.mpr ⟨hb, rfl⟩ : Spells b [] b.toNat).exists_char
        obtain ⟨-, hv⟩ := spells_nil.mp (cons_eq_utf8EncodeChar_iff.mp hc)
        rw [← hv, Char.ofNat_toNat]
        have hchar := Decodes.char c hrest
        rw [← hc] at hchar
        exact hchar
      | malformed hb => exact .malformed (malformed_singleton hb) hrest
      | within hexpects => exact hwithin hexpects
    refine ⟨hstart, fun {part more low high bits} h => ?_⟩
    by_cases hb : low ≤ b ∧ b ≤ high
    · have hin : (low ≤ b && b ≤ high) = true := by simpa using hb
      rw [items, step, if_pos hin, ← List.singleton_append, ← List.append_assoc]
      cases more with
      | zero => exact h.last hb ▸ .char _ hrest
      | succ more => exact hwithin (h.next hb)
    · have hout : ¬ (low ≤ b && b ≤ high) = true := by simpa using hb
      rw [items, step, if_neg hout]
      refine .malformed (h.malformed fun x hx => ?_) hstart
      obtain ⟨rfl, -⟩ := List.cons_prefix_cons.mp hx
      exact hb

theorem decodes_items (bytes : Bytes) : Decodes bytes (items .start bytes) := (decodes_items_within bytes).1

/-! ## One reading -/

theorem Malformed.append_inj {part part' rest rest' : Bytes} (h : Malformed part rest)
    (h' : Malformed part' rest') (heq : part ++ rest = part' ++ rest') : part = part' ∧ rest = rest' := by
  -- were one of the parts longer, it would begin a character with one byte more than the other
  have hlonger {part rest extra rest' : Bytes} (h : Malformed part rest)
      (h' : Malformed (part ++ extra) rest') (hrest : rest = extra ++ rest') : extra = [] := by
    cases extra with
    | nil => rfl
    | cons b extra =>
      rw [← List.singleton_append, ← List.append_assoc] at h'
      rcases h'.begins with hlen | hbegins
      · have hne := List.length_pos_of_ne_nil h.ne_nil
        simp at hlen
        omega
      · refine absurd hbegins.of_append (h.maximal b ⟨extra ++ rest', ?_⟩)
        rw [hrest]
        rfl
  rcases List.append_eq_append_iff.mp heq with ⟨extra, rfl, hrest⟩ | ⟨extra, rfl, hrest⟩
  · obtain rfl := hlonger h h' hrest
    exact ⟨(List.append_nil part).symm, hrest⟩
  · obtain rfl := hlonger h' h hrest
    exact ⟨List.append_nil part', hrest.symm⟩

/-- **There is one way to read by the rule.** -/
theorem Decodes.unique {bytes : Bytes} {items items' : List Item} (h : Decodes bytes items)
    (h' : Decodes bytes items') : items = items' := by
  induction h generalizing items' with
  | nil =>
    generalize hbytes : ([] : Bytes) = bytes at h'
    cases h' with
    | nil => rfl
    | char c hrest =>
      exact absurd (List.append_eq_nil_iff.mp hbytes.symm).1 String.utf8EncodeChar_ne_nil
    | malformed hpart hrest => exact absurd (List.append_eq_nil_iff.mp hbytes.symm).1 hpart.ne_nil
  | char c hrest ih =>
    rename_i rest items
    generalize hbytes : String.utf8EncodeChar c ++ rest = bytes at h'
    cases h' with
    | nil => exact absurd (List.append_eq_nil_iff.mp hbytes).1 String.utf8EncodeChar_ne_nil
    | char d hrest' =>
      obtain ⟨rfl, rfl⟩ := utf8EncodeChar_append_inj hbytes
      rw [ih hrest']
    | malformed hpart hrest' => exact absurd ⟨rest, hbytes⟩ (hpart.no_char c)
  | malformed hpart hrest ih =>
    rename_i part rest items
    generalize hbytes : part ++ rest = bytes at h'
    cases h' with
    | nil => exact absurd (List.append_eq_nil_iff.mp hbytes).1 hpart.ne_nil
    | char d hrest' => exact absurd ⟨_, hbytes.symm⟩ (hpart.no_char d)
    | malformed hpart' hrest' =>
      obtain ⟨rfl, rfl⟩ := hpart.append_inj hpart' hbytes
      rw [ih hrest']

/-- The text of bytes is read by the rule. -/
theorem Decodes.decodeLossy_eq {bytes : Bytes} {items : List Item} (h : Decodes bytes items) :
    decodeLossy bytes = items.map fun item => item.getD replacement := by
  rw [decodeLossy, (decodes_items bytes).unique h]

theorem decodes_encode (text : Text) : Decodes (encode text) (text.map some) := by
  induction text with
  | nil => exact .nil
  | cons c rest ih => exact .char c ih

theorem encode_append (text more : Text) : encode (text ++ more) = encode text ++ encode more :=
  List.flatMap_append

/-- What is well formed is read back. -/
theorem decodeLossy_encode (text : Text) : decodeLossy (encode text) = text := by
  rw [(decodes_encode text).decodeLossy_eq, List.map_map]
  exact List.map_id text

theorem decodeLossy_eq_nil_iff {bytes : Bytes} : decodeLossy bytes = [] ↔ bytes = [] := by
  constructor
  · intro h
    have hdecodes := decodes_items bytes
    rw [List.map_eq_nil_iff.mp h] at hdecodes
    cases hdecodes
    rfl
  · rintro rfl
    rfl

/-! ## Line ends -/

/-- No character but the line end has its byte. -/
theorem eq_newline_of_mem {c : Char} (h : 10 ∈ String.utf8EncodeChar c) : c = '\n' := by
  cases henc : String.utf8EncodeChar c with
  | nil => exact absurd henc String.utf8EncodeChar_ne_nil
  | cons b tail =>
    have hspells := cons_eq_utf8EncodeChar_iff.mp henc.symm
    have hten : ¬ Continues 10 := fun hcontinues => absurd hcontinues.1 (by decide)
    rw [henc, List.mem_cons] at h
    obtain rfl : 10 = b := h.resolve_right fun htail => hten (hspells.continues 10 htail)
    have hsingle : tail = [] := by
      have hlead := hspells.lead_cases
      simp at hlead
      exact hlead
    subst hsingle
    obtain ⟨-, hv⟩ := spells_nil.mp hspells
    exact Char.toNat_inj.mp hv

/-- The bytes of a text end with a line end exactly if it does. -/
theorem getLast?_encode (text : Text) :
    (encode text).getLast? = some 10 ↔ text.getLast? = some '\n' := by
  rcases List.eq_nil_or_concat text with rfl | ⟨init, c, rfl⟩
  · simp [encode]
  · have hsingle : encode [c] = String.utf8EncodeChar c := List.flatMap_singleton _ c
    rw [List.concat_eq_append, encode_append, List.getLast?_append, List.getLast?_concat, hsingle]
    constructor
    · intro h
      cases hlast : (String.utf8EncodeChar c).getLast? with
      | none => exact absurd (List.getLast?_eq_none_iff.mp hlast) String.utf8EncodeChar_ne_nil
      | some b =>
        rw [hlast] at h
        obtain rfl : b = 10 := Option.some.inj h
        rw [eq_newline_of_mem (List.mem_of_getLast? hlast)]
    · intro h
      obtain rfl := Option.some.inj h
      rfl

/-- A line end goes on with nothing that was begun. -/
theorem not_begins_newline {part : Bytes} (h : part ≠ []) (more : Bytes) : ¬ Begins (part ++ 10 :: more) := by
  rintro ⟨c, hc⟩
  obtain rfl : c = '\n' := eq_newline_of_mem (hc.subset (by simp))
  have hlen := hc.length_le
  have hone : (String.utf8EncodeChar '\n').length = 1 := rfl
  have hpart := List.length_pos_of_ne_nil h
  rw [hone, List.length_append, List.length_cons] at hlen
  omega

/-- What is malformed stays so before a line end, and swallows nothing of it. -/
theorem Malformed.append_newline {part rest : Bytes} (h : Malformed part rest) (more : Bytes) :
    Malformed part (rest ++ 10 :: more) where
  ne_nil := h.ne_nil
  no_char c hc := by
    rw [← List.append_assoc] at hc
    rcases prefix_append_cases hc with hprefix | ⟨b, later, hb, hwhole⟩
    · exact h.no_char c hprefix
    · obtain ⟨rfl, -⟩ := List.cons_prefix_cons.mp hb
      have hne : part ++ rest ≠ [] := List.append_ne_nil_of_left_ne_nil h.ne_nil rest
      exact not_begins_newline hne later ⟨c, hwhole ▸ List.prefix_refl _⟩
  begins := h.begins
  maximal b hb := by
    cases rest with
    | nil =>
      obtain ⟨rfl, -⟩ := List.cons_prefix_cons.mp hb
      exact not_begins_newline h.ne_nil []
    | cons first rest =>
      obtain ⟨rfl, -⟩ := List.cons_prefix_cons.mp hb
      exact h.maximal b (List.prefix_append [b] rest)

/-- **Reading starts anew behind each line end**, whatever is malformed before it. -/
theorem Decodes.append_newline {bytes rest : Bytes} {items later : List Item} (h : Decodes bytes items)
    (hrest : Decodes rest later) : Decodes (bytes ++ 10 :: rest) (items ++ some '\n' :: later) := by
  induction h with
  | nil => exact .char '\n' hrest
  | char c _ ih =>
    rw [List.append_assoc]
    exact .char c ih
  | malformed hpart _ ih =>
    rw [List.append_assoc]
    exact .malformed (hpart.append_newline rest) ih

theorem decodeLossy_append_newline (bytes rest : Bytes) :
    decodeLossy (bytes ++ 10 :: rest) = decodeLossy bytes ++ '\n' :: decodeLossy rest := by
  rw [((decodes_items bytes).append_newline (decodes_items rest)).decodeLossy_eq, List.map_append]
  rfl

/-- Line ends are read from line ends alone. -/
theorem Decodes.newline_mem {bytes : Bytes} {items : List Item} (h : Decodes bytes items)
    (hmem : some '\n' ∈ items) : 10 ∈ bytes := by
  induction h with
  | nil => exact absurd hmem (by simp)
  | char c _ ih =>
    rw [List.mem_append]
    rcases List.mem_cons.mp hmem with hc | hrest
    · obtain rfl := Option.some.inj hc
      exact Or.inl List.mem_cons_self
    · exact Or.inr (ih hrest)
  | malformed _ _ ih =>
    rw [List.mem_append]
    exact Or.inr (ih ((List.mem_cons.mp hmem).resolve_left (by simp)))

theorem newline_not_mem_decodeLossy {bytes : Bytes} (h : 10 ∉ bytes) : '\n' ∉ decodeLossy bytes := by
  intro hmem
  obtain ⟨item, hitem, hchar⟩ := List.mem_map.mp hmem
  cases item with
  | none => exact absurd hchar (by decide)
  | some c =>
    obtain rfl : c = '\n' := hchar
    exact h ((decodes_items bytes).newline_mem hitem)

end LineShell.Utf8
