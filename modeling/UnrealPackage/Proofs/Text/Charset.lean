import UnrealPackage.Proofs.Text.Utf8
import UnrealPackage.Text.Charset
/-!
# Charsets without loss

`Charset.decode_encode?`: in each of the four charsets, bytes that a text was encoded to give back
its characters. For a charset with one character a byte this rests on its table alone: the place at
which a character was found holds that character. `Charset.exists_encode?_iff` is the way back: a
text is encoded if there are bytes for each of its characters.
-/

namespace UnrealPackage

/-- A list is mapped to a value exactly when its head and its tail are. -/
theorem mapM_cons_eq_some {α β : Type} {f : α → Option β} {a : α} {as : List α} {bs : List β} :
    (a :: as).mapM f = some bs ↔ ∃ b bs', f a = some b ∧ as.mapM f = some bs' ∧ bs = b :: bs' := by
  rw [List.mapM_cons]
  cases f a with
  | none => simp
  | some b =>
    cases as.mapM f with
    | none => simp
    | some bs' => simp [eq_comm]

/-- Each item has a result. -/
theorem length_of_mapM {α β : Type} {f : α → Option β} {as : List α} {bs : List β}
    (h : as.mapM f = some bs) : bs.length = as.length := by
  induction as generalizing bs with
  | nil =>
    cases h
    rfl
  | cons a as ih =>
    obtain ⟨b, bs', -, hbs, rfl⟩ := mapM_cons_eq_some.1 h
    rw [List.length_cons, ih hbs, List.length_cons]

/-- All items have results exactly if each of them has one. -/
theorem exists_mapM_iff {α β : Type} {f : α → Option β} {as : List α} :
    (∃ bs, as.mapM f = some bs) ↔ ∀ a ∈ as, ∃ b, f a = some b := by
  induction as with
  | nil => exact ⟨nofun, fun _ => ⟨[], rfl⟩⟩
  | cons a as ih =>
    rw [List.forall_mem_cons, ← ih]
    constructor
    · rintro ⟨_, h⟩
      obtain ⟨b, bs, hb, hbs, rfl⟩ := mapM_cons_eq_some.1 h
      exact ⟨⟨b, hb⟩, bs, hbs⟩
    · rintro ⟨⟨b, hb⟩, bs, hbs⟩
      exact ⟨b :: bs, mapM_cons_eq_some.2 ⟨b, bs, hb, hbs, rfl⟩⟩

namespace Charset

theorem length_upper {cs : Charset} {upper : List Nat} (h : cs.upper? = some upper) :
    upper.length = 128 := by
  cases cs <;> cases h <;> rfl

/-- A byte that a character was given stands for that character. -/
theorem charOfByte_byteOfChar {upper : List Nat} (hl : upper.length = 128) {c : Char} {b : UInt8}
    (h : byteOfChar upper c = some b) : charOfByte upper b = some c := by
  unfold byteOfChar at h
  split at h
  · next hc =>
    cases h
    have hb : c.toNat.toUInt8.toNat = c.toNat := Utf8.toNat_ofNat_byte (by omega)
    have hlt : c.toNat.toUInt8 < 128 := by
      rw [UInt8.lt_iff_toNat_lt, hb]
      exact hc
    rw [charOfByte, if_pos hlt, hb, Char.ofNat_toNat]
  · next hc =>
    obtain ⟨i, hi, rfl⟩ := Option.map_eq_some_iff.1 h
    obtain ⟨hlt, hfound, -⟩ := List.findIdx?_eq_some_iff_getElem.1 hi
    have hb : (i + 128).toUInt8.toNat = i + 128 := Utf8.toNat_ofNat_byte (by omega)
    have hge : ¬ (i + 128).toUInt8 < 128 := by
      rw [UInt8.lt_iff_toNat_lt, hb]
      change ¬ i + 128 < 128
      omega
    have hn : upper[i]? = some c.toNat := by
      rw [List.getElem?_eq_getElem hlt]
      simpa using hfound
    rw [charOfByte, if_neg hge, hb, Nat.add_sub_cancel, hn]
    split
    · next h0 => cases h0
    · next h0 =>
      have := Option.some.inj h0
      omega
    · next n hne hs =>
      rw [← Option.some.inj hs, Char.ofNat_toNat]

/-- Only the character zero has the byte zero. -/
theorem byteOfChar_ne_zero {upper : List Nat} (hl : upper.length = 128) {c : Char}
    (hc : c ≠ '\x00') {b : UInt8} (h : byteOfChar upper c = some b) : b ≠ 0 := by
  rintro rfl
  have := charOfByte_byteOfChar hl h
  exact hc (Option.some.inj this).symm

/-- Bytes that a text was encoded to give back its characters. -/
theorem decode_encode? {cs : Charset} {s : String} {stored : List UInt8}
    (h : cs.encode? s = some stored) : cs.decode stored = s.toList.map some := by
  unfold encode? at h
  unfold decode
  cases hu : cs.upper? with
  | none =>
    rw [hu] at h
    cases h
    exact Utf8.decode_encode s.toList
  | some upper =>
    rw [hu] at h
    simp only at h ⊢
    generalize s.toList = chars at h
    induction chars generalizing stored with
    | nil =>
      cases h
      rfl
    | cons c chars ih =>
      obtain ⟨b, bs, hb, hbs, rfl⟩ := mapM_cons_eq_some.1 h
      rw [List.map_cons, List.map_cons, charOfByte_byteOfChar (length_upper hu) hb, ih hbs]

/-- A charset with one character a byte takes as many bytes as there are characters. -/
theorem length_of_encode? {cs : Charset} (hcs : cs.isSingleByte = true) {s : String}
    {stored : List UInt8} (h : cs.encode? s = some stored) : stored.length = s.length := by
  obtain ⟨upper, hu⟩ := Option.isSome_iff_exists.1 hcs
  rw [encode?, hu] at h
  rw [length_of_mapM h, String.length_toList]

/-- A text without zeros is stored without zeros. -/
theorem ne_zero_of_mem_encode? {cs : Charset} {s : String} {stored : List UInt8}
    (h : cs.encode? s = some stored) (hs : '\x00' ∉ s.toList) {b : UInt8} (hb : b ∈ stored) :
    b ≠ 0 := by
  unfold encode? at h
  cases hu : cs.upper? with
  | none =>
    rw [hu] at h
    cases h
    exact Utf8.ne_zero_of_mem_encode hs hb
  | some upper =>
    rw [hu] at h
    simp only at h
    generalize s.toList = chars at h hs
    induction chars generalizing stored with
    | nil =>
      cases h
      cases hb
    | cons c chars ih =>
      obtain ⟨x, bs, hx, hbs, rfl⟩ := mapM_cons_eq_some.1 h
      rw [List.mem_cons, not_or] at hs
      rcases List.mem_cons.1 hb with rfl | hb
      · exact byteOfChar_ne_zero (length_upper hu) (Ne.symm hs.1) hx
      · exact ih hb hbs hs.2

/-- A text that the charset can hold is written without character references. -/
theorem encodeLossy_of_encode? {cs : Charset} {s : String} {stored : List UInt8}
    (h : cs.encode? s = some stored) : cs.encodeLossy s = stored := by
  unfold encode? at h
  unfold encodeLossy
  cases hu : cs.upper? with
  | none =>
    rw [hu] at h
    cases h
    rfl
  | some upper =>
    rw [hu] at h
    simp only at h ⊢
    generalize s.toList = chars at h
    induction chars generalizing stored with
    | nil =>
      cases h
      rfl
    | cons c chars ih =>
      obtain ⟨b, bs, hb, hbs, rfl⟩ := mapM_cons_eq_some.1 h
      rw [List.flatMap_cons, ih hbs, bytesOfChar, hb]
      rfl

/-- Every place in what was decoded takes at least one byte. -/
theorem length_decode_le (cs : Charset) (bytes : List UInt8) :
    (cs.decode bytes).length ≤ bytes.length := by
  unfold decode
  split
  · simp
  · exact Utf8.length_decode_le bytes

/-- Characters that were all decoded are put together without a replacement. -/
theorem decodeLossy_of_decode {cs : Charset} {bytes : List UInt8} {s : String}
    (h : cs.decode bytes = s.toList.map some) : cs.decodeLossy bytes = s := by
  rw [decodeLossy, h, List.map_map]
  have : (fun x : Option Char => x.getD '\uFFFD') ∘ some = id := rfl
  rw [this, List.map_id, String.ofList_toList]

/-! ## What a charset holds -/

/-- Whether a charset has bytes for a character. -/
def Holds (cs : Charset) (c : Char) : Prop :=
  ∃ stored, cs.decode stored = [some c]

/-- The tables name no surrogates and nothing beyond the first plane. -/
theorem lt_of_mem_upper {cs : Charset} {upper : List Nat} (h : cs.upper? = some upper) :
    ∀ n ∈ upper, n < 0xD800 := by
  cases cs <;> cases h <;> decide +kernel

/-- A character of a table is one of ASCII or in its upper half. -/
theorem toNat_of_charOfByte {cs : Charset} {upper : List Nat} (hu : cs.upper? = some upper)
    {b : UInt8} {c : Char} (h : charOfByte upper b = some c) :
    c.toNat < 0x80 ∨ c.toNat ∈ upper := by
  unfold charOfByte at h
  split at h
  · next hb =>
    cases h
    have hlt : b.toNat < 0x80 := hb
    rw [Utf16.toNat_charOfNat (.inl (Nat.lt_trans hlt (by decide)))]
    exact .inl hlt
  · split at h
    · cases h
    · cases h
    · next n hn hsome =>
      cases h
      have hmem := List.mem_of_getElem? hsome
      rw [Utf16.toNat_charOfNat (.inl (lt_of_mem_upper hu n hmem))]
      exact .inr hmem

/-- A character that a byte stands for has a byte. -/
theorem exists_byteOfChar {upper : List Nat} {c : Char} (h : c.toNat < 0x80 ∨ c.toNat ∈ upper) :
    ∃ b, byteOfChar upper c = some b := by
  unfold byteOfChar
  split
  · exact ⟨_, rfl⟩
  · next hc =>
    have hfound : (upper.findIdx? (· == c.toNat)).isSome := by
      rw [List.findIdx?_isSome, List.any_eq_true]
      exact ⟨c.toNat, h.resolve_left hc, beq_self_eq_true _⟩
    obtain ⟨i, hi⟩ := Option.isSome_iff_exists.1 hfound
    exact ⟨_, Option.map_eq_some_iff.2 ⟨i, hi, rfl⟩⟩

/-- A charset with a table holds the characters that have a byte in it. -/
theorem holds_iff_of_table {cs : Charset} {upper : List Nat} (hu : cs.upper? = some upper)
    {c : Char} : cs.Holds c ↔ ∃ b, byteOfChar upper c = some b := by
  constructor
  · rintro ⟨stored, hdecode⟩
    rw [decode, hu] at hdecode
    obtain ⟨b, -, hb⟩ := List.map_eq_singleton_iff.1 hdecode
    exact exists_byteOfChar (toNat_of_charOfByte hu hb)
  · rintro ⟨b, hb⟩
    refine ⟨[b], ?_⟩
    rw [decode, hu]
    exact congrArg (fun c => [c]) (charOfByte_byteOfChar (length_upper hu) hb)

/-- A text is encoded exactly if the charset has bytes for each of its characters. -/
theorem exists_encode?_iff {cs : Charset} {s : String} :
    (∃ stored, cs.encode? s = some stored) ↔ ∀ c ∈ s.toList, cs.Holds c := by
  unfold encode?
  cases hu : cs.upper? with
  | none =>
    refine ⟨fun _ c _ => ⟨Utf8.encode [c], ?_⟩, fun _ => ⟨_, rfl⟩⟩
    rw [decode, hu]
    exact Utf8.decode_encode [c]
  | some upper =>
    simp only [holds_iff_of_table hu]
    exact exists_mapM_iff

/-- Every unit of the characters that were decoded takes at least one byte. -/
theorem length_encode_of_decode {cs : Charset} {stored : List UInt8} {chars : List Char}
    (h : cs.decode stored = chars.map some) : (Utf16.encode chars).length ≤ stored.length := by
  unfold decode at h
  cases hu : cs.upper? with
  | none =>
    rw [hu] at h
    exact Utf8.length_encode_of_decode h
  | some upper =>
    rw [hu] at h
    simp only at h
    have hplane : ∀ c ∈ chars, c.toNat < 0x10000 := by
      intro c hc
      have hmem : some c ∈ stored.map (charOfByte upper) := h ▸ List.mem_map_of_mem hc
      obtain ⟨b, -, hb⟩ := List.mem_map.1 hmem
      rcases toNat_of_charOfByte hu hb with hlt | hmem
      · exact Nat.lt_trans hlt (by decide)
      · exact Nat.lt_trans (lt_of_mem_upper hu _ hmem) (by decide)
    have hlength := congrArg List.length h
    rw [List.length_map, List.length_map] at hlength
    exact Nat.le_of_eq ((Utf16.length_encode_of_lt hplane).trans hlength.symm)

/-! ## Charsets in which every byte is a character -/

/-- Whether every byte is a character that is written as this byte, so that no two bytes are the
same character. -/
def Total (cs : Charset) : Prop :=
  ∀ b : UInt8, ∃ c, cs.decode [b] = [some c] ∧ cs.encode? (String.ofList [c]) = some [b]

/-- A charset in which every byte is a character has a table, in which each byte is found again. -/
theorem Total.table {cs : Charset} (h : cs.Total) : ∃ upper, cs.upper? = some upper ∧
    ∀ b, ∃ c, charOfByte upper b = some c ∧ byteOfChar upper c = some b := by
  cases hu : cs.upper? with
  | none =>
    -- in UTF-8 the byte 0x80 begins no character
    obtain ⟨c, hdecode, -⟩ := h 0x80
    rw [decode, hu] at hdecode
    cases hdecode
  | some upper =>
    refine ⟨upper, rfl, fun b => ?_⟩
    obtain ⟨c, hdecode, hencode⟩ := h b
    rw [decode, hu] at hdecode
    simp only [encode?, hu, String.toList_ofList] at hencode
    refine ⟨c, (List.cons.inj hdecode).1, ?_⟩
    obtain ⟨x, xs, hx, -, hbytes⟩ := mapM_cons_eq_some.1 hencode
    rw [hx, (List.cons.inj hbytes).1]

/-- A charset is total if each byte of its table comes back from its character. -/
theorem total_of_table {cs : Charset} {upper : List Nat} (hu : cs.upper? = some upper)
    (h : ∀ n < 256, (charOfByte upper n.toUInt8).bind (byteOfChar upper) = some n.toUInt8) :
    cs.Total := by
  intro b
  have hb : b.toNat.toUInt8 = b := UInt8.ofNat_toNat
  have htable := h b.toNat b.toNat_lt
  rw [hb] at htable
  obtain ⟨c, hc, hbyte⟩ := Option.bind_eq_some_iff.1 htable
  refine ⟨c, ?_, ?_⟩
  · rw [decode, hu]
    show [charOfByte upper b] = _
    rw [hc]
  · simp only [encode?, hu, String.toList_ofList]
    exact mapM_cons_eq_some.2 ⟨b, [], hbyte, rfl, rfl⟩

theorem total_windows1252 : windows1252.Total :=
  total_of_table rfl (by decide +kernel)

theorem total_windows1251 : windows1251.Total :=
  total_of_table rfl (by decide +kernel)

/-- Where every byte is a character, bytes are found again in the text that they were read as. -/
theorem Total.encode?_decodeLossy {cs : Charset} (h : cs.Total) (stored : List UInt8) :
    cs.encode? (cs.decodeLossy stored) = some stored := by
  obtain ⟨upper, hu, htable⟩ := h.table
  rw [decodeLossy, decode, encode?, hu]
  simp only [String.toList_ofList]
  induction stored with
  | nil => rfl
  | cons b stored ih =>
    obtain ⟨c, hc, hb⟩ := htable b
    rw [List.map_cons, List.map_cons, hc]
    exact mapM_cons_eq_some.2 ⟨b, stored, hb, ih, rfl⟩

/-- Such bytes are written as they were read. -/
theorem Total.encodeLossy_decodeLossy {cs : Charset} (h : cs.Total) (stored : List UInt8) :
    cs.encodeLossy (cs.decodeLossy stored) = stored :=
  encodeLossy_of_encode? (h.encode?_decodeLossy stored)

end Charset

/-! ## Texts of any length -/

/-- A text of so many letters, all the same. -/
def letters (n : Nat) : String :=
  String.ofList (List.replicate n 'A')

theorem length_letters (n : Nat) : (letters n).length = n := by
  rw [letters, String.length_ofList, List.length_replicate]

theorem eq_of_mem_letters {n : Nat} {c : Char} (h : c ∈ (letters n).toList) : c = 'A' := by
  rw [letters, String.toList_ofList] at h
  exact List.eq_of_mem_replicate h

/-- A charset with one character a byte holds the letter as it is in ASCII. -/
theorem Charset.encode?_letters {cs : Charset} (hcs : cs.isSingleByte = true) (n : Nat) :
    cs.encode? (letters n) = some (List.replicate n 0x41) := by
  obtain ⟨upper, hu⟩ := Option.isSome_iff_exists.1 hcs
  have hbyte : byteOfChar upper 'A' = some 0x41 := rfl
  rw [encode?, hu, letters, String.toList_ofList]
  induction n with
  | zero => rfl
  | succ n ih => exact mapM_cons_eq_some.2 ⟨_, _, hbyte, ih, rfl⟩

end UnrealPackage
