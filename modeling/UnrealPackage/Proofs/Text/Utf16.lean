import UnrealPackage.Text.Utf16
/-!
# Characters as 16-bit units, there and back

`Utf16.decode_encode`: the units of a text give back its characters. `Utf16.encode_of_decode`: units
that stand for characters are the units of these characters, so a text takes as many units as it was
read from.
-/

namespace UnrealPackage.Utf16

/-- A number that is a character's is that character's. -/
theorem toNat_charOfNat {n : Nat} (h : n.isValidChar) : (Char.ofNat n).toNat = n := by
  unfold Char.ofNat
  rw [dif_pos h]
  rfl

/-- A character's number lies outside the surrogates and below the end of the planes. -/
theorem toNat_valid (c : Char) : c.toNat < 0xD800 ∨ 0xDFFF < c.toNat ∧ c.toNat < 0x110000 :=
  c.valid

theorem isHigh_iff {u : UInt16} : isHigh u = true ↔ 0xD800 ≤ u.toNat ∧ u.toNat ≤ 0xDBFF := by
  simp [isHigh, UInt16.le_iff_toNat_le]

theorem isLow_iff {u : UInt16} : isLow u = true ↔ 0xDC00 ≤ u.toNat ∧ u.toNat ≤ 0xDFFF := by
  simp [isLow, UInt16.le_iff_toNat_le]

theorem toNat_toUInt16 {n : Nat} (h : n < 0x10000) : n.toUInt16.toNat = n := by
  simp only [Nat.toUInt16_eq, UInt16.toNat_ofNat']
  omega

/-- A unit that cannot begin a pair is decoded on its own. -/
theorem decode_cons {u : UInt16} (h : isHigh u = false) (rest : List UInt16) :
    decode (u :: rest) = single u :: decode rest := by
  cases rest with
  | nil => simp [decode]
  | cons v rest => simp [decode, h]

/-! ## Reading back what was written -/

/-- The units of a character are read as that character. -/
theorem decode_encodeChar (c : Char) (rest : List UInt16) :
    decode (encodeChar c ++ rest) = some c :: decode rest := by
  have hc := toNat_valid c
  unfold encodeChar
  simp only
  split
  · next hn =>
    have hu := toNat_toUInt16 hn
    have hhigh : isHigh c.toNat.toUInt16 = false := by
      rw [Bool.eq_false_iff, Ne, isHigh_iff]
      omega
    have hlow : isLow c.toNat.toUInt16 = false := by
      rw [Bool.eq_false_iff, Ne, isLow_iff]
      omega
    rw [List.singleton_append, decode_cons hhigh, single, hhigh, hlow, hu]
    simp
  · next hn =>
    have hh := toNat_toUInt16 (n := 0xD800 + (c.toNat - 0x10000) / 0x400) (by omega)
    have hl := toNat_toUInt16 (n := 0xDC00 + (c.toNat - 0x10000) % 0x400) (by omega)
    have hhigh : isHigh (0xD800 + (c.toNat - 0x10000) / 0x400).toUInt16 = true :=
      isHigh_iff.2 (by omega)
    have hlow : isLow (0xDC00 + (c.toNat - 0x10000) % 0x400).toUInt16 = true :=
      isLow_iff.2 (by omega)
    have hsum : 0x10000 + (0xD800 + (c.toNat - 0x10000) / 0x400 - 0xD800) * 0x400 +
        (0xDC00 + (c.toNat - 0x10000) % 0x400 - 0xDC00) = c.toNat := by omega
    simp only [List.cons_append, List.nil_append, decode, hhigh, hlow, Bool.and_self, if_true, pair,
      hh, hl, hsum, Char.ofNat_toNat]

/-- The units of a text give back its characters. -/
theorem decode_encode (cs : List Char) : decode (encode cs) = cs.map some := by
  induction cs with
  | nil => rfl
  | cons c cs ih =>
    show decode (encodeChar c ++ encode cs) = _
    rw [decode_encodeChar, ih, List.map_cons]

/-! ## Zero units -/

/-- Only the character zero has a zero among its units. -/
theorem ne_zero_of_mem_encodeChar {c : Char} (hc : c ≠ '\x00') {u : UInt16}
    (hu : u ∈ encodeChar c) : u ≠ 0 := by
  have hn : c.toNat ≠ 0 := fun h => hc (Char.toNat_inj.1 h)
  have hvalid := toNat_valid c
  rintro rfl
  unfold encodeChar at hu
  simp only at hu
  split at hu
  · next hlt =>
    have h := congrArg UInt16.toNat (List.mem_singleton.1 hu)
    rw [toNat_toUInt16 hlt] at h
    exact hn h.symm
  · simp only [List.mem_cons, List.not_mem_nil, or_false] at hu
    rcases hu with h | h
    · have h := congrArg UInt16.toNat h
      rw [toNat_toUInt16 (by omega)] at h
      change 0 = _ at h
      omega
    · have h := congrArg UInt16.toNat h
      rw [toNat_toUInt16 (by omega)] at h
      change 0 = _ at h
      omega

theorem ne_zero_of_mem_encode {cs : List Char} (h : '\x00' ∉ cs) {u : UInt16}
    (hu : u ∈ encode cs) : u ≠ 0 := by
  obtain ⟨c, hc, hu⟩ := List.mem_flatMap.1 hu
  exact ne_zero_of_mem_encodeChar (fun h0 => h (h0 ▸ hc)) hu

/-! ## Writing back what was read -/

/-- A character of a single unit is written as that unit. -/
theorem encodeChar_of_single {u : UInt16} {c : Char} (h : single u = some c) :
    encodeChar c = [u] := by
  unfold single at h
  split at h
  · cases h
  · next hs =>
    cases h
    have hu := u.toNat_lt
    have hvalid : u.toNat.isValidChar := by
      simp only [Bool.or_eq_true, isHigh_iff, isLow_iff] at hs
      unfold Nat.isValidChar
      omega
    rw [encodeChar]
    simp only [toNat_charOfNat hvalid]
    rw [if_pos (by omega)]
    simp

/-- A character of a pair is written as that pair. -/
theorem encodeChar_pair {h l : UInt16} (hh : isHigh h = true) (hl : isLow l = true) :
    encodeChar (pair h l) = [h, l] := by
  rw [isHigh_iff] at hh
  rw [isLow_iff] at hl
  have hvalid : (0x10000 + (h.toNat - 0xD800) * 0x400 + (l.toNat - 0xDC00)).isValidChar := by
    unfold Nat.isValidChar
    omega
  have hhigh : 0xD800 + (0x10000 + (h.toNat - 0xD800) * 0x400 + (l.toNat - 0xDC00) - 0x10000) /
      0x400 = h.toNat := by omega
  have hlow : 0xDC00 + (0x10000 + (h.toNat - 0xD800) * 0x400 + (l.toNat - 0xDC00) - 0x10000) % 0x400
      = l.toNat := by omega
  rw [encodeChar, pair]
  simp only [toNat_charOfNat hvalid]
  rw [if_neg (by omega), hhigh, hlow]
  simp

/-- Units that stand for characters are the units of these characters. -/
theorem encode_of_decode {units : List UInt16} {cs : List Char}
    (h : decode units = cs.map some) : encode cs = units := by
  fun_induction decode units generalizing cs with
  | case1 =>
    have hcs : cs = [] := by simpa using h.symm
    rw [hcs]
    rfl
  | case2 u =>
    cases cs with
    | nil => cases h
    | cons c cs =>
      obtain ⟨hc, hcs⟩ := List.cons.inj h
      have hcs : cs = [] := by simpa using hcs.symm
      rw [hcs]
      show encodeChar c ++ [] = _
      rw [encodeChar_of_single hc, List.append_nil]
  | case3 u v rest hp ih =>
    cases cs with
    | nil => cases h
    | cons c cs =>
      obtain ⟨hc, hcs⟩ := List.cons.inj h
      rw [Bool.and_eq_true] at hp
      obtain rfl : pair u v = c := Option.some.inj hc
      show encodeChar (pair u v) ++ encode cs = _
      rw [encodeChar_pair hp.1 hp.2, ih hcs]
      rfl
  | case4 u v rest hp ih =>
    cases cs with
    | nil => cases h
    | cons c cs =>
      obtain ⟨hc, hcs⟩ := List.cons.inj h
      show encodeChar c ++ encode cs = _
      rw [encodeChar_of_single hc, ih hcs]
      rfl

/-- Every place in what was decoded takes at least one unit. -/
theorem length_decode_le (units : List UInt16) : (decode units).length ≤ units.length := by
  fun_induction decode units with
  | case1 | case2 => simp
  | case3 u v rest hp ih | case4 u v rest hp ih =>
    simp only [List.length_cons] at *
    omega

/-! ## How many units a text takes -/

theorem length_encodeChar (c : Char) :
    (encodeChar c).length = if c.toNat < 0x10000 then 1 else 2 := by
  rw [encodeChar, apply_ite List.length]
  rfl

/-- Every character of a text takes at least one unit. -/
theorem length_le_length_encode (cs : List Char) : cs.length ≤ (encode cs).length := by
  have hle := length_decode_le (encode cs)
  rwa [decode_encode, List.length_map] at hle

/-- A text whose characters all lie on the first plane takes one unit for each. -/
theorem length_encode_of_lt {cs : List Char} (h : ∀ c ∈ cs, c.toNat < 0x10000) :
    (encode cs).length = cs.length := by
  induction cs with
  | nil => rfl
  | cons c cs ih =>
    rw [List.forall_mem_cons] at h
    show (encodeChar c ++ encode cs).length = _
    rw [List.length_append, length_encodeChar, if_pos h.1, ih h.2, List.length_cons, Nat.add_comm]

end UnrealPackage.Utf16
