import LineShell.Text.Utf8

/-!
# The bytes of a character

A character's number has at most 21 bits. Its first byte is a mark, which tells how many bytes follow, with
the first of these bits; each byte after it has six more.

* `Spells b tail v`: the form of the bytes `b :: tail` of the character with number `v`. `spells_nil` to
  `spells_three` say it for each length.
* `cons_eq_utf8EncodeChar_iff`: the bytes of characters are those of this form.
* `Spells.lead_cases`: the first byte tells how many follow.
* `utf8EncodeChar_append_inj`: no character's bytes begin another's.
-/

namespace LineShell.Utf8

/-- A byte that continues a character. -/
def Continues (b : UInt8) : Prop := 0x80 ≤ b.toNat ∧ b.toNat < 0xC0

/-- What the first byte of a character has above its bits, by the number of bytes after it. -/
def mark : Nat → Nat
  | 0 => 0
  | 1 => 0xC0
  | 2 => 0xE0
  | _ => 0xF0

/-- A character with this number has this many bytes after the first one. -/
def Fits (n v : Nat) : Prop :=
  (n = 0 ∧ v < 0x80) ∨ (n = 1 ∧ 0x80 ≤ v ∧ v < 0x800) ∨
    (n = 2 ∧ 0x800 ≤ v ∧ v < 0x10000 ∧ ¬ (0xD800 ≤ v ∧ v < 0xE000)) ∨ (n = 3 ∧ 0x10000 ≤ v ∧ v < 0x110000)

/-- The number that continuing bytes make of the bits before them. -/
def value (bits : Nat) (bytes : Bytes) : Nat :=
  bytes.foldl (fun n b => n * 64 + (b.toNat - 0x80)) bits

@[simp] theorem value_nil (bits : Nat) : value bits [] = bits := rfl

@[simp] theorem value_cons (bits : Nat) (b : UInt8) (rest : Bytes) :
    value bits (b :: rest) = value (bits * 64 + (b.toNat - 0x80)) rest := by
  unfold value
  rw [List.foldl_cons]

section

variable {n v : Nat}

@[simp] theorem fits_zero : Fits 0 v ↔ v < 0x80 := by
  unfold Fits
  omega

@[simp] theorem fits_one : Fits 1 v ↔ 0x80 ≤ v ∧ v < 0x800 := by
  unfold Fits
  omega

@[simp] theorem fits_two : Fits 2 v ↔ 0x800 ≤ v ∧ v < 0x10000 ∧ ¬ (0xD800 ≤ v ∧ v < 0xE000) := by
  unfold Fits
  omega

@[simp] theorem fits_three : Fits 3 v ↔ 0x10000 ≤ v ∧ v < 0x110000 := by
  unfold Fits
  omega

theorem Fits.le_three (h : Fits n v) : n ≤ 3 := by
  unfold Fits at h
  omega

/-- What fits is the number of a character. -/
theorem Fits.exists_char (h : Fits n v) : ∃ c : Char, c.toNat = v := by
  have hvalid : v < 0xD800 ∨ (0xDFFF < v ∧ v < 0x110000) := by
    unfold Fits at h
    omega
  exact ⟨Char.ofNatAux v hvalid, rfl⟩

end

/-- The bytes of the character with a number, as numbers. -/
def octets (v : Nat) : List Nat :=
  if v < 0x80 then [v]
  else if v < 0x800 then [0xC0 + v / 64, 0x80 + v % 64]
  else if v < 0x10000 then [0xE0 + v / 4096, 0x80 + v / 64 % 64, 0x80 + v % 64]
  else [0xF0 + v / 262144, 0x80 + v / 4096 % 64, 0x80 + v / 64 % 64, 0x80 + v % 64]

theorem map_toNat_utf8EncodeChar (c : Char) :
    (String.utf8EncodeChar c).map UInt8.toNat = octets c.toNat := by
  have hvalid : c.toNat < 0xD800 ∨ (0xDFFF < c.toNat ∧ c.toNat < 0x110000) := c.valid
  have hv : c.val.toNat = c.toNat := rfl
  unfold String.utf8EncodeChar octets
  simp only [hv]
  by_cases one : c.toNat < 0x80
  · rw [if_pos (by omega), if_pos one]
    simp only [List.map_cons, List.map_nil, UInt8.toNat_ofNat']
    rw [Nat.mod_eq_of_lt (by omega)]
  by_cases two : c.toNat < 0x800
  · rw [if_neg (by omega), if_neg one, if_pos (by omega), if_pos two]
    simp only [List.map_cons, List.map_nil, UInt8.toNat_ofNat', List.cons.injEq, and_true]
    omega
  by_cases three : c.toNat < 0x10000
  · rw [if_neg (by omega), if_neg one, if_neg (by omega), if_neg two, if_pos (by omega), if_pos three]
    simp only [List.map_cons, List.map_nil, UInt8.toNat_ofNat', List.cons.injEq, and_true]
    omega
  · rw [if_neg (by omega), if_neg one, if_neg (by omega), if_neg two, if_neg (by omega), if_neg three]
    simp only [List.map_cons, List.map_nil, UInt8.toNat_ofNat', List.cons.injEq, and_true]
    omega

/-- **The form of the bytes of a character**: a mark with the first bits of its number, and continuing bytes
with the others, as few as there can be. -/
structure Spells (b : UInt8) (tail : Bytes) (v : Nat) : Prop where
  fits : Fits tail.length v
  continues : ∀ x ∈ tail, Continues x
  marked : mark tail.length ≤ b.toNat
  value_eq : v = value (b.toNat - mark tail.length) tail

section

variable {b x y z : UInt8} {v : Nat}

theorem spells_nil : Spells b [] v ↔ v < 0x80 ∧ v = b.toNat := by
  constructor
  · rintro ⟨hfits, -, -, hv⟩
    exact ⟨fits_zero.mp hfits, hv⟩
  · rintro ⟨hlt, hv⟩
    exact ⟨fits_zero.mpr hlt, by simp, Nat.zero_le _, hv⟩

theorem spells_one : Spells b [x] v ↔ (0x80 ≤ v ∧ v < 0x800) ∧ Continues x ∧ 0xC0 ≤ b.toNat ∧
    v = (b.toNat - 0xC0) * 64 + (x.toNat - 0x80) := by
  constructor
  · rintro ⟨hfits, hcontinues, hmarked, hv⟩
    exact ⟨fits_one.mp hfits, by simpa using hcontinues, hmarked, hv⟩
  · rintro ⟨hfits, hx, hmarked, hv⟩
    exact ⟨fits_one.mpr hfits, by simpa using hx, hmarked, hv⟩

theorem spells_two : Spells b [x, y] v ↔
    (0x800 ≤ v ∧ v < 0x10000 ∧ ¬ (0xD800 ≤ v ∧ v < 0xE000)) ∧ (Continues x ∧ Continues y) ∧ 0xE0 ≤ b.toNat ∧
    v = ((b.toNat - 0xE0) * 64 + (x.toNat - 0x80)) * 64 + (y.toNat - 0x80) := by
  constructor
  · rintro ⟨hfits, hcontinues, hmarked, hv⟩
    exact ⟨fits_two.mp hfits, by simpa using hcontinues, hmarked, hv⟩
  · rintro ⟨hfits, hcontinues, hmarked, hv⟩
    exact ⟨fits_two.mpr hfits, by simpa using hcontinues, hmarked, hv⟩

theorem spells_three : Spells b [x, y, z] v ↔
    (0x10000 ≤ v ∧ v < 0x110000) ∧ (Continues x ∧ Continues y ∧ Continues z) ∧ 0xF0 ≤ b.toNat ∧
    v = (((b.toNat - 0xF0) * 64 + (x.toNat - 0x80)) * 64 + (y.toNat - 0x80)) * 64 + (z.toNat - 0x80) := by
  constructor
  · rintro ⟨hfits, hcontinues, hmarked, hv⟩
    exact ⟨fits_three.mp hfits, by simpa using hcontinues, hmarked, hv⟩
  · rintro ⟨hfits, hcontinues, hmarked, hv⟩
    exact ⟨fits_three.mpr hfits, by simpa using hcontinues, hmarked, hv⟩

end

/-- No character has more than three bytes after the first one. -/
theorem Spells.tail_cases {b : UInt8} {tail : Bytes} {v : Nat} (h : Spells b tail v) :
    tail = [] ∨ (∃ x, tail = [x]) ∨ (∃ x y, tail = [x, y]) ∨ ∃ x y z, tail = [x, y, z] := by
  have hlen := h.fits.le_three
  rcases tail with _ | ⟨x, _ | ⟨y, _ | ⟨z, _ | ⟨w, rest⟩⟩⟩⟩
  · exact Or.inl rfl
  · exact Or.inr (Or.inl ⟨x, rfl⟩)
  · exact Or.inr (Or.inr (Or.inl ⟨x, y, rfl⟩))
  · exact Or.inr (Or.inr (Or.inr ⟨x, y, z, rfl⟩))
  · simp only [List.length_cons] at hlen
    omega

section

variable {b : UInt8} {tail : Bytes} {v : Nat}

/-- The octets of a character's number have this form. -/
theorem spells_of_octets (hvalid : v < 0xD800 ∨ (0xDFFF < v ∧ v < 0x110000))
    (h : (b :: tail).map UInt8.toNat = octets v) : Spells b tail v := by
  unfold octets at h
  by_cases one : v < 0x80
  · rw [if_pos one] at h
    obtain ⟨hb, rfl⟩ : b.toNat = v ∧ tail = [] := by simpa using h
    exact spells_nil.mpr ⟨one, hb.symm⟩
  by_cases two : v < 0x800
  · rw [if_neg one, if_pos two] at h
    obtain ⟨hb, x, rfl, hx⟩ : b.toNat = 0xC0 + v / 64 ∧ ∃ x, tail = [x] ∧ x.toNat = 0x80 + v % 64 := by
      simpa [List.map_eq_cons_iff] using h
    rw [spells_one, Continues]
    omega
  by_cases three : v < 0x10000
  · rw [if_neg one, if_neg two, if_pos three] at h
    obtain ⟨hb, x, _, rfl, hx, y, rfl, hy⟩ : b.toNat = 0xE0 + v / 4096 ∧ ∃ x rest, tail = x :: rest ∧
        x.toNat = 0x80 + v / 64 % 64 ∧ ∃ y, rest = [y] ∧ y.toNat = 0x80 + v % 64 := by
      simpa [List.map_eq_cons_iff] using h
    rw [spells_two, Continues, Continues]
    omega
  · rw [if_neg one, if_neg two, if_neg three] at h
    obtain ⟨hb, x, _, rfl, hx, y, _, rfl, hy, z, rfl, hz⟩ : b.toNat = 0xF0 + v / 262144 ∧
        ∃ x rest, tail = x :: rest ∧ x.toNat = 0x80 + v / 4096 % 64 ∧
        ∃ y last, rest = y :: last ∧ y.toNat = 0x80 + v / 64 % 64 ∧
        ∃ z, last = [z] ∧ z.toNat = 0x80 + v % 64 := by
      simpa [List.map_eq_cons_iff] using h
    rw [spells_three, Continues, Continues, Continues]
    omega

/-- What has this form are the octets of the number that it spells. -/
theorem Spells.map_toNat (h : Spells b tail v) : (b :: tail).map UInt8.toNat = octets v := by
  unfold octets
  obtain rfl | ⟨x, rfl⟩ | ⟨x, y, rfl⟩ | ⟨x, y, z, rfl⟩ := h.tail_cases
  · obtain ⟨one, hv⟩ := spells_nil.mp h
    rw [if_pos one, hv]
    rfl
  · rw [spells_one, Continues] at h
    rw [if_neg (by omega), if_pos (by omega)]
    simp only [List.map_cons, List.map_nil, List.cons.injEq, and_true]
    omega
  · rw [spells_two, Continues, Continues] at h
    rw [if_neg (by omega), if_neg (by omega), if_pos (by omega)]
    simp only [List.map_cons, List.map_nil, List.cons.injEq, and_true]
    omega
  · rw [spells_three, Continues, Continues, Continues] at h
    rw [if_neg (by omega), if_neg (by omega), if_neg (by omega)]
    simp only [List.map_cons, List.map_nil, List.cons.injEq, and_true]
    omega

/-- **The bytes of a character are those that spell its number.** -/
theorem cons_eq_utf8EncodeChar_iff {c : Char} :
    b :: tail = String.utf8EncodeChar c ↔ Spells b tail c.toNat := by
  rw [← List.map_inj_right fun _ _ h => UInt8.toNat_inj.mp h, map_toNat_utf8EncodeChar]
  exact ⟨spells_of_octets c.valid, Spells.map_toNat⟩

theorem Spells.exists_char (h : Spells b tail v) : ∃ c, b :: tail = String.utf8EncodeChar c := by
  obtain ⟨c, rfl⟩ := h.fits.exists_char
  exact ⟨c, cons_eq_utf8EncodeChar_iff.mpr h⟩

/-- The first byte tells how many follow. -/
theorem Spells.lead_cases (h : Spells b tail v) :
    (tail.length = 0 ∧ b.toNat < 0x80) ∨ (tail.length = 1 ∧ 0xC2 ≤ b.toNat ∧ b.toNat < 0xE0) ∨
      (tail.length = 2 ∧ 0xE0 ≤ b.toNat ∧ b.toNat < 0xF0) ∨
      (tail.length = 3 ∧ 0xF0 ≤ b.toNat ∧ b.toNat < 0xF5) := by
  obtain rfl | ⟨x, rfl⟩ | ⟨x, y, rfl⟩ | ⟨x, y, z, rfl⟩ := h.tail_cases
  · rw [spells_nil] at h
    exact Or.inl ⟨rfl, by omega⟩
  · rw [spells_one, Continues] at h
    exact Or.inr (Or.inl ⟨rfl, by omega⟩)
  · rw [spells_two, Continues, Continues] at h
    exact Or.inr (Or.inr (Or.inl ⟨rfl, by omega⟩))
  · rw [spells_three, Continues, Continues, Continues] at h
    exact Or.inr (Or.inr (Or.inr ⟨rfl, by omega⟩))

end

/-- No character's bytes begin another's. -/
theorem utf8EncodeChar_append_inj {c d : Char} {x y : Bytes}
    (h : String.utf8EncodeChar c ++ x = String.utf8EncodeChar d ++ y) : c = d ∧ x = y := by
  have hdecode (c : Char) (x : Bytes) :
      (String.utf8EncodeChar c ++ x).toByteArray.utf8DecodeChar? 0 = some c := by
    rw [List.toByteArray_append]
    exact ByteArray.utf8DecodeChar?_utf8EncodeChar_append
  have hc := hdecode c x
  rw [h, hdecode d y] at hc
  obtain rfl := Option.some.inj hc
  exact ⟨rfl, List.append_cancel_left h⟩

end LineShell.Utf8
