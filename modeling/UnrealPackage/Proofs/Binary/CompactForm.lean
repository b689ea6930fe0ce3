import UnrealPackage.Proofs.Binary.CompactInt
/-!
# Forms of compact integers

A number can be stored in several compact forms. `Decode.compact_eq_ok` says what they are: a first
byte and, if it is marked, up to four more, of which all but the last are marked, with the sign and
the `magnitude` that they hold. Of all forms that are read as one number, the one that is written is
the one that meets `IsCanonical` (`Decode.compact_exact`).
-/

namespace UnrealPackage

namespace Encode

theorem compactTail_succ (n m : Nat) : compactTail (n + 1) m =
    if m < 128 then [m.toUInt8] else (m % 128 + 128).toUInt8 :: compactTail n (m / 128) :=
  rfl

theorem compact_eq (v : Int32) : compact v =
    if v.toInt.natAbs < 64 then [((if v.toInt < 0 then 128 else 0) + v.toInt.natAbs).toUInt8]
    else ((if v.toInt < 0 then 128 else 0) + 64 + v.toInt.natAbs % 64).toUInt8 ::
      compactTail 4 (v.toInt.natAbs / 64) :=
  rfl

end Encode

namespace CompactForm

variable {n : Nat} {b : UInt8} {form tail : List UInt8}

/-! ## Forms -/

/-- Whether bytes can stand behind the first one, of which `n + 1` may be used: all but the last are
marked, and the last one is not unless it is the last that may be used. -/
def IsTail : Nat → List UInt8 → Prop
  | 0, tail => ∃ b, tail = [b]
  | n + 1, tail => (∃ b, tail = [b] ∧ b.toNat < 128) ∨
    ∃ b rest, tail = b :: rest ∧ 128 ≤ b.toNat ∧ IsTail n rest

/-- Whether bytes are a form of a number. -/
def IsForm (form : List UInt8) : Prop :=
  ∃ b tail, form = b :: tail ∧ if b.toNat / 64 % 2 = 1 then IsTail 3 tail else tail = []

/-- The magnitude in the bytes behind the first one, of which `n + 1` may be used: seven bits in
each, five in the last that may be used. -/
def tailMagnitude : Nat → List UInt8 → Nat
  | _, [] => 0
  | 0, b :: _ => b.toNat % 32
  | n + 1, b :: tail => b.toNat % 128 + 128 * tailMagnitude n tail

/-- The magnitude that a form holds, six bits of it in the first byte. -/
def magnitude : List UInt8 → Nat
  | [] => 0
  | b :: tail => b.toNat % 64 + 64 * tailMagnitude 3 tail

/-- Whether a form has the sign. -/
def IsNegative (form : List UInt8) : Prop :=
  128 ≤ (form.headD 0).toNat

instance (form : List UInt8) : Decidable (IsNegative form) :=
  Nat.decLe _ _

/-- The number that a form stands for; the magnitude wraps to 32 bits. -/
def value (form : List UInt8) : Int32 :=
  Int32.ofInt (if IsNegative form then -(magnitude form : Int) else magnitude form)

/-- Whether a form is the one that is written for its number. -/
structure IsCanonical (form : List UInt8) : Prop where
  /-- The last of several bytes holds a part of the magnitude. -/
  last : 1 < form.length →
    ∀ b ∈ form.getLast?, b.toNat % (if form.length = 5 then 32 else 128) ≠ 0
  /-- Zero has no sign. -/
  zero : magnitude form = 0 → ¬IsNegative form
  /-- The fifth byte holds nothing but the highest five bits. -/
  fifth : ∀ b ∈ form[4]?, b.toNat < 32
  /-- The magnitude did not wrap. -/
  fits : magnitude form < 0x80000000 ∨ magnitude form = 0x80000000 ∧ IsNegative form

/-- A tail has at least one byte, and one more than there are groups left at most. -/
theorem IsTail.length (h : IsTail n tail) : 0 < tail.length ∧ tail.length ≤ n + 1 := by
  induction n generalizing tail with
  | zero =>
    obtain ⟨b, rfl⟩ := h
    exact ⟨Nat.one_pos, Nat.le_refl 1⟩
  | succ n ih =>
    rcases h with ⟨b, rfl, -⟩ | ⟨b, rest, rfl, -, hrest⟩
    · exact ⟨Nat.one_pos, Nat.le_add_left 1 _⟩
    · exact ⟨Nat.succ_pos _, Nat.succ_le_succ (ih hrest).2⟩

theorem IsTail.ne_nil (h : IsTail n tail) : tail ≠ [] :=
  List.length_pos_iff.1 h.length.1

theorem IsForm.length_le (h : IsForm form) : form.length ≤ 5 := by
  obtain ⟨b, tail, rfl, htail⟩ := h
  split at htail
  · exact Nat.succ_le_succ htail.length.2
  · exact htail ▸ Nat.le_add_left 1 4

theorem tailMagnitude_nil : tailMagnitude n [] = 0 := by
  cases n <;> rfl

/-- A last byte without the mark is the magnitude that it holds. -/
theorem tailMagnitude_singleton (h : b.toNat < 128) : tailMagnitude (n + 1) [b] = b.toNat := by
  rw [tailMagnitude, tailMagnitude_nil, Nat.mod_eq_of_lt h]
  omega

/-! ## Tails that are written -/

/-- Whether the last of the bytes behind the first one holds a part of the magnitude, and nothing
else if it is the last that may be used. -/
def IsShortTail (n : Nat) (tail : List UInt8) : Prop :=
  (∀ b ∈ tail.getLast?, b.toNat % (if tail.length = n + 1 then 32 else 128) ≠ 0) ∧
    ∀ b ∈ tail[n]?, b.toNat < 32

theorem isShortTail_zero : IsShortTail 0 [b] ↔ b.toNat % 32 ≠ 0 ∧ b.toNat < 32 := by
  simp [IsShortTail]

theorem isShortTail_singleton : IsShortTail (n + 1) [b] ↔ b.toNat % 128 ≠ 0 := by
  simp [IsShortTail]

theorem isShortTail_cons (h : tail ≠ []) :
    IsShortTail (n + 1) (b :: tail) ↔ IsShortTail n tail := by
  obtain ⟨c, tail, rfl⟩ := List.exists_cons_of_ne_nil h
  simp [IsShortTail, List.getLast?_cons_cons]

/-- The bytes that are written for the magnitude in a tail are that tail exactly if its last byte is
needed. -/
theorem isShortTail_iff (h : IsTail n tail) : IsShortTail n tail ↔
    0 < tailMagnitude n tail ∧ Encode.compactTail (n + 1) (tailMagnitude n tail) = tail := by
  induction n generalizing tail with
  | zero =>
    obtain ⟨b, rfl⟩ := h
    have hlt := Nat.mod_lt b.toNat (y := 32) (by decide)
    rw [isShortTail_zero, tailMagnitude, Encode.compactTail, if_pos (by omega), List.cons.injEq,
      ← UInt8.toNat_inj, Nat.toUInt8_eq, UInt8.toNat_ofNat']
    constructor
    · rintro ⟨hne, hb⟩
      exact ⟨by omega, by omega, rfl⟩
    · rintro ⟨hpos, hb, -⟩
      exact ⟨by omega, by omega⟩
  | succ n ih =>
    rcases h with ⟨b, rfl, hb⟩ | ⟨b, rest, rfl, hb, hrest⟩
    · rw [isShortTail_singleton, tailMagnitude_singleton hb, Encode.compactTail, if_pos hb,
        Nat.mod_eq_of_lt hb, Nat.toUInt8_eq, UInt8.ofNat_toNat]
      exact ⟨fun hne => ⟨by omega, rfl⟩, fun h => by omega⟩
    · rw [isShortTail_cons hrest.ne_nil, ih hrest, tailMagnitude, Encode.compactTail_succ (n + 1)]
      have hlow := Nat.mod_lt b.toNat (y := 128) (by decide)
      have hbyte := b.toNat_lt
      generalize tailMagnitude n rest = high
      by_cases hhigh : high = 0
      · -- the rest is not needed
        rw [if_pos (by omega)]
        refine ⟨fun h => by omega, fun h => ?_⟩
        exact absurd (List.cons.inj h.2).2.symm hrest.ne_nil
      · have hfirst : ((b.toNat % 128 + 128 * high) % 128 + 128).toUInt8 = b := by
          rw [← UInt8.toNat_inj, Nat.toUInt8_eq, UInt8.toNat_ofNat']
          omega
        have hmore : (b.toNat % 128 + 128 * high) / 128 = high := by omega
        rw [if_neg (by omega), hfirst, hmore, List.cons.injEq]
        exact ⟨fun h => ⟨by omega, rfl, h.2⟩, fun h => ⟨by omega, h.2.2⟩⟩

/-- A form of several bytes is canonical exactly if its last byte is needed and its magnitude did
not wrap. -/
theorem isCanonical_cons (h : IsTail 3 tail) : IsCanonical (b :: tail) ↔ IsShortTail 3 tail ∧
    (magnitude (b :: tail) < 0x80000000 ∨
      magnitude (b :: tail) = 0x80000000 ∧ IsNegative (b :: tail)) := by
  have hlength : 1 < (b :: tail).length := Nat.succ_lt_succ h.length.1
  have hlast : (b :: tail).getLast? = tail.getLast? := by
    obtain ⟨c, tail, rfl⟩ := List.exists_cons_of_ne_nil h.ne_nil
    exact List.getLast?_cons_cons
  have hfive : (b :: tail).length = 5 ↔ tail.length = 4 := Nat.succ_inj
  constructor
  · intro hcanonical
    have hneeded := hcanonical.last hlength
    simp only [hlast, hfive] at hneeded
    exact ⟨⟨hneeded, hcanonical.fifth⟩, hcanonical.fits⟩
  · rintro ⟨hshort, hfits⟩
    have hpos := ((isShortTail_iff h).1 hshort).1
    refine ⟨fun _ => ?_, fun hzero => ?_, hshort.2, hfits⟩
    · simp only [hlast, hfive]
      exact hshort.1
    · rw [magnitude] at hzero
      omega

end CompactForm

open CompactForm

namespace Decode

variable {n m : Nat} {v : Int32} {form tail input rest : List UInt8}

/-! ## What is read -/

/-- What the reader takes behind a first byte is a tail, and its magnitude is what it gives. -/
theorem compactTail_eq_ok : compactTail n input = .ok (m, rest) ↔
    ∃ tail, input = tail ++ rest ∧ IsTail n tail ∧ tailMagnitude n tail = m := by
  induction n generalizing input m with
  | zero =>
    rw [compactTail, bind_eq_ok]
    constructor
    · rintro ⟨b, middle, hb, hpure⟩
      obtain ⟨rfl, rfl⟩ := pure_eq_ok.1 hpure
      obtain rfl := u8_eq_ok.1 hb
      exact ⟨[b], rfl, ⟨b, rfl⟩, rfl⟩
    · rintro ⟨_, rfl, ⟨b, rfl⟩, rfl⟩
      exact ⟨b, rest, rfl, rfl⟩
  | succ n ih =>
    rw [compactTail, bind_eq_ok]
    constructor
    · rintro ⟨b, middle, hb, hmore⟩
      obtain rfl := u8_eq_ok.1 hb
      split at hmore
      · next hlast =>
        obtain ⟨rfl, rfl⟩ := pure_eq_ok.1 hmore
        exact ⟨[b], rfl, .inl ⟨b, rfl, hlast⟩, tailMagnitude_singleton hlast⟩
      · next hmarked =>
        obtain ⟨high, middle', hhigh, hpure⟩ := bind_eq_ok.1 hmore
        obtain ⟨rfl, rfl⟩ := pure_eq_ok.1 hpure
        obtain ⟨tail, rfl, htail, rfl⟩ := ih.1 hhigh
        exact ⟨b :: tail, rfl, .inr ⟨b, tail, rfl, Nat.not_lt.1 hmarked, htail⟩, rfl⟩
    · rintro ⟨_, rfl, ⟨b, rfl, hlast⟩ | ⟨b, tail, rfl, hmarked, htail⟩, rfl⟩
      · refine ⟨b, rest, rfl, ?_⟩
        rw [if_pos hlast, tailMagnitude_singleton hlast]
        rfl
      · refine ⟨b, tail ++ rest, rfl, ?_⟩
        rw [if_neg (Nat.not_lt.2 hmarked)]
        exact bind_eq_ok.2 ⟨_, rest, ih.2 ⟨tail, rfl, htail, rfl⟩, rfl⟩

/-- The sign of a compact integer is the highest bit of its first byte. -/
theorem ofInt_ite_lt (b : UInt8) (tail : List UInt8) : Int32.ofInt
    (if b.toNat < 128 then (magnitude (b :: tail) : Int) else -(magnitude (b :: tail) : Int)) =
      value (b :: tail) := by
  refine congrArg Int32.ofInt ?_
  by_cases hb : b.toNat < 128
  · have hpositive : ¬IsNegative (b :: tail) := Nat.not_le.2 hb
    rw [if_pos hb, if_neg hpositive]
  · have hnegative : IsNegative (b :: tail) := Nat.not_lt.1 hb
    rw [if_neg hb, if_pos hnegative]

/-- A number is read from its forms and from nothing else. -/
theorem compact_eq_ok : compact input = .ok (v, rest) ↔
    ∃ form, input = form ++ rest ∧ IsForm form ∧ value form = v := by
  rw [compact, bind_eq_ok]
  constructor
  · rintro ⟨b, middle, hb, hmore⟩
    obtain rfl := u8_eq_ok.1 hb
    split at hmore
    · next hmarked =>
      obtain ⟨m, middle', hm, hpure⟩ := bind_eq_ok.1 hmore
      obtain ⟨t, ht, rfl⟩ := map_eq_ok.1 hm
      obtain ⟨rfl, rfl⟩ := pure_eq_ok.1 hpure
      obtain ⟨tail, rfl, htail, rfl⟩ := compactTail_eq_ok.1 ht
      exact ⟨b :: tail, rfl, ⟨b, tail, rfl, by rwa [if_pos hmarked]⟩, (ofInt_ite_lt b tail).symm⟩
    · next hsingle =>
      obtain ⟨m, middle', hm, hpure⟩ := bind_eq_ok.1 hmore
      obtain ⟨rfl, rfl⟩ := pure_eq_ok.1 hm
      obtain ⟨rfl, rfl⟩ := pure_eq_ok.1 hpure
      exact ⟨[b], rfl, ⟨b, [], rfl, by rw [if_neg hsingle]⟩, (ofInt_ite_lt b []).symm⟩
  · rintro ⟨_, rfl, ⟨b, tail, rfl, htail⟩, rfl⟩
    refine ⟨b, tail ++ rest, rfl, ?_⟩
    have hvalue := pure_eq_ok.2 ⟨ofInt_ite_lt b tail, rfl (a := rest)⟩
    split at htail
    · next hmarked =>
      rw [if_pos hmarked]
      have ht : compactTail 3 (tail ++ rest) = .ok (tailMagnitude 3 tail, rest) :=
        compactTail_eq_ok.2 ⟨tail, rfl, htail, rfl⟩
      exact bind_eq_ok.2 ⟨_, rest, map_eq_ok.2 ⟨_, ht, rfl⟩, hvalue⟩
    · next hsingle =>
      subst htail
      rw [if_neg hsingle]
      exact bind_eq_ok.2 ⟨_, rest, pure_eq_ok.2 ⟨rfl, rfl⟩, hvalue⟩

/-! ## What is written -/

/-- The bytes that are written behind the first one hold the magnitude that they were made from. -/
theorem isTail_compactTail (h : m < 32 * Nat.pow 128 n) :
    IsTail n (Encode.compactTail (n + 1) m) ∧
      tailMagnitude n (Encode.compactTail (n + 1) m) = m := by
  obtain ⟨tail, heq, htail, hm⟩ := compactTail_eq_ok.1 (reads_compactTail h [])
  rw [List.append_nil, List.append_nil] at heq
  exact heq ▸ ⟨htail, hm⟩

/-- The first byte of a form holds the sign, the mark and six bits. -/
theorem toNat_first {sign mark low : Nat} (hsign : sign = 0 ∨ sign = 128)
    (hmark : mark = 0 ∨ mark = 64) (hlow : low < 64) :
    (sign + mark + low).toUInt8.toNat = sign + mark + low := by
  rw [Nat.toUInt8_eq, UInt8.toNat_ofNat']
  omega

/-- What is written is in the canonical form. -/
theorem isCanonical_compact (v : Int32) : IsCanonical (Encode.compact v) := by
  have hbound : v.toInt.natAbs < 0x80000000 ∨ v.toInt.natAbs = 0x80000000 ∧ v.toInt < 0 := by
    have := v.toInt_lt
    have := v.le_toInt
    omega
  generalize hs : (if v.toInt < 0 then 128 else 0) = sign
  have hsign : sign = 0 ∧ 0 ≤ v.toInt ∨ sign = 128 ∧ v.toInt < 0 := by
    split at hs <;> omega
  rw [Encode.compact_eq, hs]
  split
  · next hsmall =>
    have hb := toNat_first (hsign.imp And.left And.left) (.inl rfl) hsmall
    rw [Nat.add_zero] at hb
    have hm : magnitude [(sign + v.toInt.natAbs).toUInt8] = v.toInt.natAbs := by
      rw [magnitude, tailMagnitude_nil, hb]
      omega
    refine ⟨fun h => absurd h (Nat.lt_irrefl 1), ?_, nofun, .inl ?_⟩
    · rw [hm, IsNegative, List.headD_cons, hb]
      omega
    · rw [hm]
      omega
  · next hlarge =>
    have hb := toNat_first (hsign.imp And.left And.left) (.inr rfl)
      (Nat.mod_lt v.toInt.natAbs (y := 64) (by decide))
    have hfits : v.toInt.natAbs / 64 < 32 * Nat.pow 128 3 := by
      show _ < 0x4000000
      omega
    obtain ⟨htail, ht⟩ := isTail_compactTail hfits
    rw [isCanonical_cons htail, isShortTail_iff htail, ht, magnitude, ht, IsNegative,
      List.headD_cons, hb]
    refine ⟨⟨by omega, rfl⟩, ?_⟩
    omega

/-- The magnitude of a canonical form did not wrap, so it is the one of its number. -/
theorem natAbs_value (h : IsCanonical form) : (value form).toInt.natAbs = magnitude form ∧
    ((value form).toInt < 0 ↔ IsNegative form) := by
  by_cases hnegative : IsNegative form
  · have hnonzero : magnitude form ≠ 0 := fun hm => h.zero hm hnegative
    have hle : magnitude form ≤ 0x80000000 := h.fits.elim Nat.le_of_lt fun h => Nat.le_of_eq h.1
    rw [value, if_pos hnegative, Int32.toInt_ofInt_of_le (by omega) (by omega)]
    exact ⟨by omega, fun _ => hnegative, fun _ => by omega⟩
  · have hlt : magnitude form < 0x80000000 := h.fits.resolve_right fun h => hnegative h.2
    rw [value, if_neg hnegative, Int32.toInt_ofInt_of_le (by omega) (by omega)]
    exact ⟨by omega, fun hneg => by omega, fun h => absurd h hnegative⟩

/-- A canonical form is the one in which its number is written. -/
theorem compact_value (hform : IsForm form) (h : IsCanonical form) :
    Encode.compact (value form) = form := by
  obtain ⟨hm, hnegative⟩ := natAbs_value h
  obtain ⟨b, tail, rfl, htail⟩ := hform
  have hbyte := b.toNat_lt
  have hsign : (if (value (b :: tail)).toInt < 0 then 128 else 0) = b.toNat / 128 * 128 := by
    simp only [hnegative, IsNegative, List.headD_cons]
    split <;> omega
  rw [Encode.compact_eq, hm, hsign]
  split at htail
  · obtain ⟨hshort, -⟩ := (isCanonical_cons htail).1 h
    obtain ⟨hpos, htail⟩ := (isShortTail_iff htail).1 hshort
    have hlow : magnitude (b :: tail) % 64 = b.toNat % 64 := by
      rw [magnitude]
      omega
    have hhigh : magnitude (b :: tail) / 64 = tailMagnitude 3 tail := by
      rw [magnitude]
      omega
    rw [if_neg (by omega), hlow, hhigh, htail, List.cons.injEq, ← UInt8.toNat_inj,
      toNat_first (by omega) (.inr rfl) (Nat.mod_lt _ (by decide))]
    exact ⟨by omega, rfl⟩
  · subst htail
    have hlow : magnitude [b] = b.toNat % 64 := by
      rw [magnitude, tailMagnitude_nil]
      omega
    rw [hlow, if_pos (Nat.mod_lt _ (by decide)), List.cons.injEq, ← UInt8.toNat_inj,
      ← Nat.add_zero (_ / 128 * 128), toNat_first (by omega) (.inl rfl) (Nat.mod_lt _ (by decide))]
    exact ⟨by omega, rfl⟩

/-- What the compact code promises. Every number is read back from the form in which it is written,
whatever follows, and so are numbers written in a row. Whatever is read as a number took at most
five bytes, and no fewer than are written for it; these are the same bytes exactly if they are
canonical. -/
theorem compact_exact :
    (∀ v rest, compact (Encode.compact v ++ rest) = .ok (v, rest)) ∧
    (∀ vs rest, times compact vs.length (vs.flatMap Encode.compact ++ rest) = .ok (vs, rest)) ∧
    ∀ input v rest, compact input = .ok (v, rest) → ∃ form, input = form ++ rest ∧
      (Encode.compact v).length ≤ form.length ∧ form.length ≤ 5 ∧
      (Encode.compact v = form ↔ IsCanonical form) := by
  refine ⟨reads_compact, fun _ => Reads.times fun v _ => reads_compact v,
     fun input v rest h => ?_⟩
  have hle := length_compact_le h
  obtain ⟨form, rfl, hform, rfl⟩ := compact_eq_ok.1 h
  rw [List.length_append, Nat.add_le_add_iff_right] at hle
  refine ⟨form, rfl, hle, hform.length_le, fun hwritten => ?_, compact_value hform⟩
  exact hwritten ▸ isCanonical_compact (value form)

/-- Five can be stored in three bytes, the last of which holds nothing. -/
theorem compact_exact_overlong :
    compact [0x45, 0x80, 0, 9] = .ok (5, [9]) ∧ ¬IsCanonical [0x45, 0x80, 0] := by
  have hread : compact [0x45, 0x80, 0, 9] = .ok (5, [9]) := rfl
  obtain ⟨form, happend, -, -, hwritten⟩ := compact_exact.2.2 _ _ _ hread
  have hform : [0x45, 0x80, 0] = form := List.append_cancel_right happend
  subst hform
  exact ⟨hread, fun h => nomatch hwritten.2 h⟩

end Decode

end UnrealPackage
