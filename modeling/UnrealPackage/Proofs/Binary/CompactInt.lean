import UnrealPackage.Binary.CompactInt
import UnrealPackage.Proofs.Binary.Reads
/-!
# Compact integers read back

`Decode.reads_compact`: every 32-bit number is read back from its shortest compact form. The number
-2 ^ 31 needs no exception: its magnitude takes 32 bits, and wraps to the number itself.
-/

namespace UnrealPackage.Decode

/-- The bytes after the first one give back the magnitude that they were made from, as long as it
fits the bytes that may be used. -/
theorem reads_compactTail {n m : Nat} (h : m < 32 * Nat.pow 128 n) :
    Reads (compactTail n) (Encode.compactTail (n + 1) m) m := by
  induction n generalizing m with
  | zero =>
    have hm : m < 32 := by simpa using h
    have hlow : m.toUInt8.toNat % 32 = m := by
      simp only [Nat.toUInt8_eq, UInt8.toNat_ofNat']
      omega
    have h : Reads (compactTail 0) [m.toUInt8] (m.toUInt8.toNat % 32) := (reads_u8 _).bindPure _
    rw [hlow] at h
    rw [Encode.compactTail, if_pos (by omega)]
    exact h
  | succ n ih =>
    rw [Encode.compactTail]
    split
    · next hm =>
      have hb : m.toUInt8.toNat = m := by
        simp only [Nat.toUInt8_eq, UInt8.toNat_ofNat']
        omega
      intro rest
      refine bind_eq_ok.2 ⟨_, rest, reads_u8 _ rest, ?_⟩
      rw [if_pos (by omega), hb]
      rfl
    · next hm =>
      have hb : (m % 128 + 128).toUInt8.toNat = m % 128 + 128 := by
        simp only [Nat.toUInt8_eq, UInt8.toNat_ofNat']
        omega
      have hhigh : m / 128 < 32 * Nat.pow 128 n := by
        have h : m < 32 * (Nat.pow 128 n * 128) := h
        omega
      intro rest
      refine bind_eq_ok.2 ⟨_, _, reads_u8 _ _, ?_⟩
      rw [if_neg (by omega), hb]
      refine bind_eq_ok.2 ⟨_, rest, ih hhigh rest, ?_⟩
      refine pure_eq_ok.2 ⟨?_, rfl⟩
      omega

/-- A number is what its sign and its magnitude say. -/
theorem int32_of_magnitude (v : Int32) :
    Int32.ofInt (if v.toInt < 0 then -(v.toInt.natAbs : Int) else v.toInt.natAbs) = v := by
  have hv : (if v.toInt < 0 then -(v.toInt.natAbs : Int) else v.toInt.natAbs) = v.toInt := by
    split <;> omega
  rw [hv, Int32.ofInt_toInt]

/-- A number is read back from its shortest form. -/
theorem reads_compact (v : Int32) : Reads compact (Encode.compact v) v := by
  have hbound : v.toInt.natAbs ≤ 0x80000000 := by
    have := v.toInt_lt
    have := v.le_toInt
    omega
  generalize hm : v.toInt.natAbs = m at hbound
  have hvalue := int32_of_magnitude v
  rw [hm] at hvalue
  generalize hs : (if v.toInt < 0 then 128 else 0) = sign
  have hsign : sign = 0 ∧ 0 ≤ v.toInt ∨ sign = 128 ∧ v.toInt < 0 := by
    split at hs <;> omega
  intro rest
  simp only [Encode.compact, hm, hs]
  split
  · next hsmall =>
    have hb : (sign + m).toUInt8.toNat = sign + m := by
      simp only [Nat.toUInt8_eq, UInt8.toNat_ofNat']
      omega
    refine bind_eq_ok.2 ⟨_, rest, reads_u8 _ rest, ?_⟩
    simp only [hb]
    rw [if_neg (by omega)]
    refine bind_eq_ok.2 ⟨(sign + m) % 64, rest, rfl, ?_⟩
    refine pure_eq_ok.2 ⟨?_, rfl⟩
    rw [← hvalue]
    congr 1
    split <;> split <;> omega
  · next hlarge =>
    have hb : (sign + 64 + m % 64).toUInt8.toNat = sign + 64 + m % 64 := by
      simp only [Nat.toUInt8_eq, UInt8.toNat_ofNat']
      omega
    have hfits : m / 64 < 32 * Nat.pow 128 3 := by
      show m / 64 < 0x4000000
      omega
    have htail : Reads (compactTail 3) (Encode.compactTail 4 (m / 64)) (m / 64) :=
      reads_compactTail hfits
    refine bind_eq_ok.2 ⟨_, _, reads_u8 _ _, ?_⟩
    simp only [hb]
    rw [if_pos (by omega)]
    refine bind_eq_ok.2 ⟨_, rest, htail.map _ rest, ?_⟩
    refine pure_eq_ok.2 ⟨?_, rfl⟩
    rw [← hvalue]
    congr 1
    split <;> split <;> omega

theorem framed_compactTail (n : Nat) : Framed (compactTail n) := by
  induction n with
  | zero => exact framed_u8.bind fun _ => .pure _
  | succ n ih =>
    exact framed_u8.bind fun _ => .ite (.pure _) (ih.bind fun _ => .pure _)

theorem framed_compact : Framed compact :=
  framed_u8.bind fun _ =>
    .ite (((framed_compactTail 3).map _).bind fun _ => .pure _)
      ((Framed.pure _).bind fun _ => .pure _)

end UnrealPackage.Decode

namespace UnrealPackage.Encode

/-- No more bytes are written behind the first one than there are groups left. -/
theorem length_compactTail_le (n m : Nat) : (compactTail n m).length ≤ n := by
  induction n generalizing m with
  | zero => exact Nat.le_refl _
  | succ n ih =>
    rw [compactTail]
    split
    · simp
    · exact Nat.succ_le_succ (ih _)

/-- A number takes at most five bytes. -/
theorem length_compact_le (v : Int32) : (compact v).length ≤ 5 := by
  simp only [compact]
  split
  · simp
  · exact Nat.succ_le_succ (length_compactTail_le 4 _)

theorem compact_ne_nil (v : Int32) : compact v ≠ [] := by
  simp only [compact]
  split <;> simp

/-- A larger magnitude takes as many bytes behind the first one, or more. -/
theorem length_compactTail_mono {n m m' : Nat} (h : m ≤ m') :
    (compactTail n m).length ≤ (compactTail n m').length := by
  induction n generalizing m m' with
  | zero => exact Nat.le_refl _
  | succ n ih =>
    rw [compactTail, compactTail]
    by_cases hm : m < 128
    · rw [if_pos hm]
      split <;> simp
    · rw [if_neg hm, if_neg (by omega)]
      exact Nat.succ_le_succ (ih (Nat.div_le_div_right h))

theorem length_compact (v : Int32) : (compact v).length =
    if v.toInt.natAbs < 64 then 1 else (compactTail 4 (v.toInt.natAbs / 64)).length + 1 := by
  simp only [compact, apply_ite List.length, List.length_cons, List.length_nil]

/-- A number of smaller magnitude takes no more bytes. -/
theorem length_compact_mono {v v' : Int32} (h : v.toInt.natAbs ≤ v'.toInt.natAbs) :
    (compact v).length ≤ (compact v').length := by
  rw [length_compact, length_compact]
  by_cases hv : v.toInt.natAbs < 64
  · rw [if_pos hv]
    split <;> omega
  · rw [if_neg hv, if_neg (by omega)]
    exact Nat.succ_le_succ (length_compactTail_mono (Nat.div_le_div_right h))

end UnrealPackage.Encode

/-! ## No form is shorter than the one that is written -/

namespace UnrealPackage

/-- A magnitude that `k` bytes behind the first one can hold is written in no more. -/
theorem Encode.length_compactTail_le_of_lt {n k m : Nat} (h : m < Nat.pow 128 (k + 1)) :
    (compactTail n m).length ≤ k + 1 := by
  induction n generalizing k m with
  | zero => exact Nat.zero_le _
  | succ n ih =>
    rw [compactTail]
    split
    · exact Nat.succ_le_succ (Nat.zero_le k)
    · next hm =>
      cases k with
      | zero => exact absurd h hm
      | succ k =>
        have hhigh : m / 128 < Nat.pow 128 (k + 1) := by
          have h : m < Nat.pow 128 (k + 1) * 128 := h
          omega
        exact Nat.succ_le_succ (ih hhigh)

/-- The fewer groups the magnitude behind the first byte fills, the fewer bytes are written. -/
theorem Encode.length_compact_le_of_magnitude {v : Int32} {m k : Nat} (hv : v.toInt.natAbs = m)
    (hm : m / 64 < Nat.pow 128 (k + 1)) : (compact v).length ≤ k + 2 := by
  rw [length_compact, hv]
  split
  · omega
  · exact Nat.succ_le_succ (length_compactTail_le_of_lt hm)

theorem Encode.length_compact_of_small {v : Int32} (hv : v.toInt.natAbs < 64) :
    (compact v).length = 1 := by
  rw [length_compact, if_pos hv]

namespace Decode

variable {input rest : List UInt8}

/-- The bytes behind the first one hold seven bits each, unless they are as many as there can be. -/
theorem compactTail_lt {n m : Nat} (h : compactTail n input = .ok (m, rest)) :
    ∃ k, input.length = k + 1 + rest.length ∧ k ≤ n ∧ (k < n → m < Nat.pow 128 (k + 1)) := by
  induction n generalizing input m with
  | zero =>
    obtain ⟨b, middle, hb, hpure⟩ := bind_eq_ok.1 h
    obtain ⟨-, rfl⟩ := pure_eq_ok.1 hpure
    obtain rfl := u8_eq_ok.1 hb
    exact ⟨0, by rw [List.length_cons]; omega, Nat.le_refl 0, nofun⟩
  | succ n ih =>
    obtain ⟨b, middle, hb, hmore⟩ := bind_eq_ok.1 h
    obtain rfl := u8_eq_ok.1 hb
    split at hmore
    · next hlast =>
      obtain ⟨rfl, rfl⟩ := pure_eq_ok.1 hmore
      exact ⟨0, by rw [List.length_cons]; omega, Nat.zero_le _, fun _ => hlast⟩
    · obtain ⟨high, middle', hhigh, hpure⟩ := bind_eq_ok.1 hmore
      obtain ⟨rfl, rfl⟩ := pure_eq_ok.1 hpure
      obtain ⟨k, hlength, hk, hlt⟩ := ih hhigh
      refine ⟨k + 1, by rw [List.length_cons]; omega, Nat.succ_le_succ hk, fun hkn => ?_⟩
      have hhigh : high < Nat.pow 128 (k + 1) := hlt (Nat.lt_of_succ_lt_succ hkn)
      show b.toNat % 128 + 128 * high < Nat.pow 128 (k + 1) * 128
      omega

/-- The number of a magnitude below 2 ^ 31 has that magnitude. -/
theorem natAbs_ofInt {m : Nat} {c : Prop} [Decidable c] (h : m < 0x80000000) :
    (Int32.ofInt (if c then (m : Int) else -m)).toInt.natAbs = m := by
  rw [Int32.toInt_ofInt_of_le (by split <;> omega) (by split <;> omega)]
  split <;> omega

/-- The form in which a number was read is no shorter than the one in which it is written. -/
theorem length_compact_le {v : Int32} (h : compact input = .ok (v, rest)) :
    (Encode.compact v).length + rest.length ≤ input.length := by
  obtain ⟨b, middle, hb, hmore⟩ := bind_eq_ok.1 h
  obtain rfl := u8_eq_ok.1 hb
  rw [List.length_cons]
  split at hmore
  · obtain ⟨m, middle', hm, hpure⟩ := bind_eq_ok.1 hmore
    obtain ⟨t, ht, rfl⟩ := map_eq_ok.1 hm
    obtain ⟨rfl, rfl⟩ := pure_eq_ok.1 hpure
    obtain ⟨k, hlength, hk, hlt⟩ := compactTail_lt ht
    by_cases hkn : k < 3
    · have ht : t < Nat.pow 128 (k + 1) := hlt hkn
      have hpow : Nat.pow 128 (k + 1) ≤ Nat.pow 128 3 := Nat.pow_le_pow_right (by decide) hkn
      have hpow3 : Nat.pow 128 3 = 0x200000 := rfl
      have hvalue := natAbs_ofInt (m := b.toNat % 64 + 64 * t) (c := b.toNat < 128) (by omega)
      have hle := Encode.length_compact_le_of_magnitude (k := k) hvalue (by omega)
      omega
    · -- five bytes hold any number
      refine Nat.le_trans (Nat.add_le_add_right (Encode.length_compact_le _) _) ?_
      omega
  · obtain ⟨m, middle', hm, hpure⟩ := bind_eq_ok.1 hmore
    obtain ⟨rfl, rfl⟩ := pure_eq_ok.1 hm
    obtain ⟨rfl, rfl⟩ := pure_eq_ok.1 hpure
    have hvalue := natAbs_ofInt (m := b.toNat % 64) (c := b.toNat < 128) (by omega)
    have hone := Encode.length_compact_of_small (hvalue ▸ Nat.mod_lt _ (by decide))
    omega

/-- A form that is read as a number, whatever follows, is no shorter than the one that is
written. -/
theorem Reads.length_compact_le {form : List UInt8} {v : Int32} (h : Reads compact form v) :
    (Encode.compact v).length ≤ form.length := by
  have hle := Decode.length_compact_le (h [])
  rwa [List.append_nil] at hle

end Decode

end UnrealPackage
