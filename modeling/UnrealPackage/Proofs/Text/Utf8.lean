import UnrealPackage.Proofs.Text.Utf16
import UnrealPackage.Text.Utf8
/-!
# Characters as bytes, there and back

`Utf8.decode_encode`: the bytes of a text give back its characters. A character of several bytes is
decoded by `start` on the first of them and one step for each of the others; that the first step
lands in the right range is where the surrogates and the end of the planes are excluded.
-/

namespace UnrealPackage.Utf8

theorem toNat_ofNat_byte {n : Nat} (h : n < 256) : (UInt8.ofNat n).toNat = n := by
  rw [UInt8.toNat_ofNat']
  omega

theorem decodeFrom_none_cons (b : UInt8) (bs : List UInt8) :
    decodeFrom none (b :: bs) = (start b).1 ++ decodeFrom (start b).2 bs := by
  rw [decodeFrom]

/-- A byte that fits an unfinished character brings it one step further. -/
theorem decodeFrom_some_cons {missing bits low high n : Nat} (hlow : low ≤ n) (hhigh : n ≤ high)
    (hn : n < 256) (bs : List UInt8) :
    decodeFrom (some ⟨missing + 2, bits, low, high⟩) (.ofNat n :: bs) =
      decodeFrom (some ⟨missing + 1, bits * 64 + n % 64, 0x80, 0xBF⟩) bs := by
  rw [decodeFrom, toNat_ofNat_byte hn]
  simp only
  rw [if_pos ⟨hlow, hhigh⟩, if_neg (by omega)]
  rfl

/-- The last byte of a character finishes it. -/
theorem decodeFrom_last {bits low high n : Nat} (hlow : low ≤ n) (hhigh : n ≤ high) (hn : n < 256)
    (bs : List UInt8) :
    decodeFrom (some ⟨1, bits, low, high⟩) (.ofNat n :: bs) =
      some (Char.ofNat (bits * 64 + n % 64)) :: decodeFrom none bs := by
  rw [decodeFrom, toNat_ofNat_byte hn]
  simp only
  rw [if_pos ⟨hlow, hhigh⟩, if_pos (by omega)]

theorem start_one {n : Nat} (h : n < 0x80) :
    start (.ofNat n) = ([some (Char.ofNat n)], none) := by
  unfold start
  simp only [toNat_ofNat_byte (show n < 256 by omega)]
  rw [if_pos h]

theorem start_two {n : Nat} (h : 0xC2 ≤ n) (h' : n ≤ 0xDF) :
    start (.ofNat n) = ([], some ⟨1, n % 0x20, 0x80, 0xBF⟩) := by
  unfold start
  simp only [toNat_ofNat_byte (show n < 256 by omega)]
  rw [if_neg (by omega), if_pos ⟨h, h'⟩]

/-- The first byte of three bounds the second one from below or above at the edges. -/
theorem start_three {n : Nat} (h : 0xE0 ≤ n) (h' : n ≤ 0xEF) :
    start (.ofNat n) = ([], some ⟨2, n % 0x10, if n = 0xE0 then 0xA0 else 0x80,
      if n = 0xED then 0x9F else 0xBF⟩) := by
  unfold start
  simp only [toNat_ofNat_byte (show n < 256 by omega)]
  rw [if_neg (by omega), if_neg (by omega)]
  split
  · next he =>
    subst he
    rfl
  · split
    · next he hd =>
      subst hd
      rfl
    · next he hd => rw [if_pos ⟨by omega, h'⟩]

/-- The first byte of four bounds the second one from below or above at the edges. -/
theorem start_four {n : Nat} (h : 0xF0 ≤ n) (h' : n ≤ 0xF4) :
    start (.ofNat n) = ([], some ⟨3, n % 8, if n = 0xF0 then 0x90 else 0x80,
      if n = 0xF4 then 0x8F else 0xBF⟩) := by
  unfold start
  simp only [toNat_ofNat_byte (show n < 256 by omega)]
  rw [if_neg (by omega), if_neg (by omega), if_neg (by omega), if_neg (by omega),
    if_neg (by omega)]
  split
  · next he =>
    subst he
    rfl
  · split
    · next he hd => rw [if_neg (by omega)]
    · next he hd =>
      have hn : n = 0xF4 := by omega
      subst hn
      rfl

/-- The bytes of a character give it back. -/
theorem decodeFrom_utf8EncodeChar (c : Char) (bs : List UInt8) :
    decodeFrom none (String.utf8EncodeChar c ++ bs) = some c :: decodeFrom none bs := by
  have hvalid : c.val.toNat < 0xD800 ∨ 0xDFFF < c.val.toNat ∧ c.val.toNat < 0x110000 :=
    Utf16.toNat_valid c
  have hc : Char.ofNat c.val.toNat = c := Char.ofNat_toNat c
  unfold String.utf8EncodeChar
  generalize c.val.toNat = v at hvalid hc
  simp only
  split
  · next h1 =>
    rw [List.cons_append, decodeFrom_none_cons, start_one (by omega), hc]
    rfl
  split
  · next h1 h2 =>
    have hbits : (v / 64 % 32 + 192) % 0x20 * 64 + (v % 64 + 128) % 64 = v := by omega
    rw [List.cons_append, List.cons_append, decodeFrom_none_cons, start_two (by omega) (by omega),
      List.nil_append, decodeFrom_last (by omega) (by omega) (by omega), hbits, hc]
    rfl
  split
  · next h1 h2 h3 =>
    have hbits : ((v / 4096 % 16 + 224) % 0x10 * 64 + (v / 64 % 64 + 128) % 64) * 64 +
        (v % 64 + 128) % 64 = v := by omega
    have hlow : (if v / 4096 % 16 + 224 = 0xE0 then 0xA0 else 0x80) ≤ v / 64 % 64 + 128 := by
      split <;> omega
    have hhigh : v / 64 % 64 + 128 ≤ (if v / 4096 % 16 + 224 = 0xED then 0x9F else 0xBF) := by
      split <;> omega
    rw [List.cons_append, List.cons_append, List.cons_append, decodeFrom_none_cons,
      start_three (by omega) (by omega), List.nil_append,
      decodeFrom_some_cons hlow hhigh (by omega),
      decodeFrom_last (by omega) (by omega) (by omega), hbits, hc]
    rfl
  · next h1 h2 h3 =>
    have hbits : (((v / 262144 % 8 + 240) % 8 * 64 + (v / 4096 % 64 + 128) % 64) * 64 +
        (v / 64 % 64 + 128) % 64) * 64 + (v % 64 + 128) % 64 = v := by omega
    have hlow : (if v / 262144 % 8 + 240 = 0xF0 then 0x90 else 0x80) ≤ v / 4096 % 64 + 128 := by
      split <;> omega
    have hhigh : v / 4096 % 64 + 128 ≤ (if v / 262144 % 8 + 240 = 0xF4 then 0x8F else 0xBF) := by
      split <;> omega
    rw [List.cons_append, List.cons_append, List.cons_append, List.cons_append,
      decodeFrom_none_cons, start_four (by omega) (by omega), List.nil_append,
      decodeFrom_some_cons hlow hhigh (by omega),
      decodeFrom_some_cons (by omega) (by omega) (by omega),
      decodeFrom_last (by omega) (by omega) (by omega), hbits, hc]
    rfl

/-- The bytes of a text give back its characters. -/
theorem decode_encode (cs : List Char) : decode (encode cs) = cs.map some := by
  induction cs with
  | nil => rfl
  | cons c cs ih =>
    show decodeFrom none (String.utf8EncodeChar c ++ encode cs) = _
    rw [decodeFrom_utf8EncodeChar]
    exact congrArg (some c :: ·) ih

/-- Only the character zero has a zero among its bytes. -/
theorem ne_zero_of_mem_encode {cs : List Char} (h : '\x00' ∉ cs) {b : UInt8}
    (hb : b ∈ encode cs) : b ≠ 0 := by
  obtain ⟨c, hc, hb⟩ := List.mem_flatMap.1 hb
  have hn : c.val.toNat ≠ 0 := by
    intro h0
    have hc0 : c = '\x00' := Char.toNat_inj.1 h0
    exact h (hc0 ▸ hc)
  have hvalid : c.val.toNat < 0xD800 ∨ 0xDFFF < c.val.toNat ∧ c.val.toNat < 0x110000 :=
    Utf16.toNat_valid c
  rintro rfl
  unfold String.utf8EncodeChar at hb
  generalize c.val.toNat = v at hn hvalid hb
  have key : ∀ n : Nat, 0 < n → n < 256 → (0 : UInt8) ≠ .ofNat n := by
    intro n hpos hlt h0
    have := congrArg UInt8.toNat h0
    rw [toNat_ofNat_byte hlt] at this
    change 0 = n at this
    omega
  simp only at hb
  split at hb
  · exact key _ (by omega) (by omega) (List.mem_singleton.1 hb)
  split at hb
  · simp only [List.mem_cons, List.not_mem_nil, or_false] at hb
    rcases hb with hb | hb <;> exact key _ (by omega) (by omega) hb
  split at hb
  · simp only [List.mem_cons, List.not_mem_nil, or_false] at hb
    rcases hb with hb | hb | hb <;> exact key _ (by omega) (by omega) hb
  · simp only [List.mem_cons, List.not_mem_nil, or_false] at hb
    rcases hb with hb | hb | hb | hb <;> exact key _ (by omega) (by omega) hb

/-- What was decoded gives no more items than its bytes, and one for a character cut off, if no
place gives more than two and those that may take a single byte give no more than one. -/
theorem length_flatMap_decodeFrom_le {α : Type} (items : Option Char → List α)
    (hnone : (items none).length ≤ 1)
    (hone : ∀ c, c.toNat < 0x80 → (items (some c)).length ≤ 1)
    (htwo : ∀ c, (items (some c)).length ≤ 2) (p : Option Partial) (bs : List UInt8) :
    ((decodeFrom p bs).flatMap items).length ≤ bs.length + p.toList.length := by
  have hstart : ∀ b, ((start b).1.flatMap items).length + (start b).2.toList.length ≤ 1 := by
    intro b
    unfold start
    simp only
    split
    · next hb =>
      have hchar : (Char.ofNat b.toNat).toNat = b.toNat :=
        Utf16.toNat_charOfNat (.inl (Nat.lt_trans hb (by decide)))
      have hitems := hone (Char.ofNat b.toNat) (by rw [hchar]; exact hb)
      simpa using hitems
    repeat' split
    all_goals simp [hnone]
  fun_induction decodeFrom p bs with
  | case1 => simp
  | case2 p => simpa using hnone
  | case3 b bs out p hs ih =>
    have := hstart b
    rw [hs] at this
    simp only [List.flatMap_append, List.length_append, List.length_cons, Option.toList_none,
      List.length_nil] at *
    omega
  | case4 p b bs hr bits hm ih =>
    have := htwo (Char.ofNat bits)
    simp only [List.flatMap_cons, List.length_append, List.length_cons, Option.toList_none,
      List.length_nil, Option.toList_some] at *
    omega
  | case5 p b bs hr bits hm ih =>
    simp only [List.length_cons, List.length_nil, Option.toList_some] at *
    omega
  | case6 p b bs hr out q hs ih =>
    have := hstart b
    rw [hs] at this
    simp only [List.flatMap_append, List.length_append, List.flatMap_cons, List.length_cons,
      List.length_nil, Option.toList_some, List.cons_append] at *
    omega

/-- Every place in what was decoded takes at least one byte. -/
theorem length_decode_le (bs : List UInt8) : (decode bs).length ≤ bs.length := by
  have hle := length_flatMap_decodeFrom_le (fun c => [c]) (Nat.le_refl 1) (fun _ _ => Nat.le_refl 1)
    (fun _ => Nat.le_succ 1) none bs
  rwa [List.flatMap_singleton'] at hle

/-- The 16-bit units for a place in what was decoded, of which a stretch that is no character has
one. -/
def unitsAt : Option Char → List UInt16
  | none => [0xFFFD]
  | some c => Utf16.encodeChar c

/-- Every unit of the characters that were decoded takes at least one byte. -/
theorem length_encode_of_decode {bs : List UInt8} {cs : List Char} (h : decode bs = cs.map some) :
    (Utf16.encode cs).length ≤ bs.length := by
  have hone : ∀ c : Char, c.toNat < 0x80 → (unitsAt (some c)).length ≤ 1 := by
    intro c hc
    have hunit : (Utf16.encodeChar c).length = 1 := by
      rw [Utf16.length_encodeChar, if_pos (Nat.lt_trans hc (by decide))]
    exact Nat.le_of_eq hunit
  have htwo : ∀ c : Char, (unitsAt (some c)).length ≤ 2 := by
    intro c
    rw [unitsAt, Utf16.length_encodeChar]
    split <;> decide
  have hle := length_flatMap_decodeFrom_le unitsAt (Nat.le_refl 1) hone htwo none bs
  have hdecode : decodeFrom none bs = cs.map some := h
  rw [hdecode, List.flatMap_map] at hle
  exact hle

end UnrealPackage.Utf8
