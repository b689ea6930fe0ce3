import UnrealPackage.Binary.Text
import UnrealPackage.Proofs.Binary.CompactInt
import UnrealPackage.Proofs.Text.Charset
/-!
# Stored texts read back

`Decode.reads_text`: a text with its length in front is read back in every charset, as long as the
length fits 31 bits. A text of `2 ^ 31 - 1` characters or more has no such length, so
`StorableText` is what a text needs to be stored at all (`Decode.text_truncated` says what becomes
of one without it); `Decode.storable_of_text` says that every text read from an image below 4 GiB
has it.

Texts that end at a zero are read back if they hold no zero themselves.
-/

namespace UnrealPackage

/-- Whether the length of a text, its zero included, fits the number in front of it. -/
def StorableText (s : String) : Prop :=
  s.length < 0x7FFFFFFF

instance (s : String) : Decidable (StorableText s) :=
  inferInstanceAs (Decidable (s.length < 0x7FFFFFFF))

/-- Characters that are all there make a text. -/
theorem textOf?_map_some (cs : List Char) : textOf? (cs.map some) = some (String.ofList cs) := by
  have h : (cs.map some).mapM id = some cs := by
    induction cs with
    | nil => rfl
    | cons c cs ih => exact mapM_cons_eq_some.2 ⟨c, cs, rfl, ih, rfl⟩
  rw [textOf?, h]
  rfl

/-- Only decoded characters that are all there make a text, and it consists of them. -/
theorem eq_map_some_of_textOf? {cs : List (Option Char)} {s : String} (h : textOf? cs = some s) :
    cs = s.toList.map some := by
  obtain ⟨chars, hchars, rfl⟩ := Option.map_eq_some_iff.1 h
  rw [String.toList_ofList]
  induction cs generalizing chars with
  | nil =>
    cases hchars
    rfl
  | cons c cs ih =>
    obtain ⟨char, chars', hchar, hchars', rfl⟩ := mapM_cons_eq_some.1 hchars
    have hc : c = some char := hchar
    have hrest : textOf? cs = some (String.ofList chars') := by
      rw [textOf?, hchars']
      rfl
    rw [hc, ih chars' hchars' hrest]
    rfl

/-- A text has as many characters as were decoded. -/
theorem length_of_textOf? {cs : List (Option Char)} {s : String} (h : textOf? cs = some s) :
    s.length = cs.length := by
  obtain ⟨chars, hc, rfl⟩ := Option.map_eq_some_iff.1 h
  rw [String.length_ofList, length_of_mapM hc]

/-- A unit written in front of others is read in front of them. -/
theorem unitsOfBytes_u16 (v : UInt16) (rest : List UInt8) :
    unitsOfBytes (Encode.u16 v ++ rest) = v :: unitsOfBytes rest := by
  have hv := v.toNat_lt
  have hsum : v.toNat % 256 + 256 * (v.toNat / 256 % 256) = v.toNat := by omega
  simp only [Encode.u16, Encode.littleEndian, List.cons_append, List.nil_append, unitsOfBytes,
    Nat.toUInt8_eq, UInt8.toNat_ofNat', Nat.reducePow, Nat.mod_mod, hsum, Nat.toUInt16_eq,
    UInt16.ofNat_toNat]

theorem unitsOfBytes_flatMap (units : List UInt16) :
    unitsOfBytes (units.flatMap Encode.u16) = units := by
  induction units with
  | nil => rfl
  | cons u units ih => rw [List.flatMap_cons, unitsOfBytes_u16, ih]

/-- Each unit takes two bytes. -/
theorem length_flatMap_u16 (units : List UInt16) :
    (units.flatMap Encode.u16).length = 2 * units.length := by
  induction units with
  | nil => rfl
  | cons u units ih =>
    rw [List.flatMap_cons, List.length_append, ih, Encode.length_u16, List.length_cons]
    omega

/-- There is at most one unit for two bytes. -/
theorem length_unitsOfBytes_le (bytes : List UInt8) :
    2 * (unitsOfBytes bytes).length ≤ bytes.length := by
  fun_induction unitsOfBytes bytes with
  | case1 low high rest ih =>
    simp only [List.length_cons]
    omega
  | case2 => simp

/-- The two ways in which a text with its length in front is stored. -/
theorem Encode.text_cases (cs : Charset) (s : String) :
    (∃ stored, cs.isSingleByte = true ∧ cs.encode? s = some stored ∧
      text cs s = compact (Int32.ofNat (stored.length + 1)) ++ stored ++ [0]) ∨
    (¬(cs.isSingleByte = true ∧ ∃ stored, cs.encode? s = some stored) ∧
      text cs s = compact (Int32.ofInt (-((Utf16.encode s.toList).length + 1))) ++
        wideTextUntilZero s) := by
  unfold text
  by_cases hcs : cs.isSingleByte = true
  · rw [if_pos hcs]
    cases hstored : cs.encode? s with
    | some stored => exact .inl ⟨stored, hcs, rfl, rfl⟩
    | none => exact .inr ⟨fun ⟨_, _, h⟩ => (nomatch h), rfl⟩
  · rw [if_neg hcs]
    exact .inr ⟨fun h => hcs h.1, rfl⟩

namespace Decode

variable {cs : Charset} {s : String} {input rest : List UInt8}

theorem framed_orThrow {α : Type} (e : Error) (a? : Option α) : Framed (orThrow e a?) := by
  cases a? with
  | none => exact .throw e
  | some a => exact .pure a

/-! ## Texts with their length in front -/

/-- The part of `text` behind the length. -/
theorem text_eq_ok : text cs input = .ok (s, rest) ↔ ∃ length middle,
    compact input = .ok (length, middle) ∧
    (length.toInt = 0 ∧ s = "" ∧ rest = middle ∨
      0 < length.toInt ∧ (∃ stored, middle = stored ++ rest ∧
        stored.length = length.toInt.natAbs ∧ textOf? (cs.decode stored.dropLast) = some s) ∨
      length.toInt < 0 ∧ ∃ stored, middle = stored ++ rest ∧
        stored.length = 2 * length.toInt.natAbs ∧
        textOf? (Utf16.decode (unitsOfBytes stored).dropLast) = some s) := by
  have hthrow : ∀ (a? : Option String) (middle : List UInt8),
      orThrow .malformedString a? middle = .ok (s, rest) ↔ a? = some s ∧ middle = rest := by
    intro a? middle
    cases a? with
    | none => exact ⟨nofun, nofun⟩
    | some a => exact pure_eq_ok.trans (by simp)
  unfold text
  rw [bind_eq_ok]
  refine exists_congr fun length => exists_congr fun middle => and_congr_right fun _ => ?_
  split
  · next h0 =>
    rw [pure_eq_ok]
    constructor
    · rintro ⟨rfl, rfl⟩
      exact .inl ⟨by omega, rfl, rfl⟩
    · rintro (⟨-, rfl, rfl⟩ | ⟨hpos, -⟩ | ⟨hneg, -⟩)
      · exact ⟨rfl, rfl⟩
      · omega
      · omega
  · next h0 =>
    split
    · next hpos =>
      simp only [bind_eq_ok, bytes_eq_ok, hthrow]
      constructor
      · rintro ⟨stored, _, ⟨rfl, hl⟩, ht, rfl⟩
        exact .inr (.inl ⟨hpos, stored, rfl, hl, ht⟩)
      · rintro (⟨hz, -⟩ | ⟨-, stored, rfl, hl, ht⟩ | ⟨hneg, -⟩)
        · omega
        · exact ⟨stored, rest, ⟨rfl, hl⟩, ht, rfl⟩
        · omega
    · next hpos =>
      simp only [bind_eq_ok, bytes_eq_ok, hthrow]
      constructor
      · rintro ⟨stored, _, ⟨rfl, hl⟩, ht, rfl⟩
        exact .inr (.inr ⟨by omega, stored, rfl, hl, ht⟩)
      · rintro (⟨hz, -⟩ | ⟨hp, -⟩ | ⟨-, stored, rfl, hl, ht⟩)
        · omega
        · omega
        · exact ⟨stored, rest, ⟨rfl, hl⟩, ht, rfl⟩

theorem framed_text (cs : Charset) : Framed (text cs) :=
  framed_compact.bind fun _ => .ite (.pure _) <| .ite
    ((framed_bytes _).bind fun _ => framed_orThrow _ _)
    ((framed_bytes _).bind fun _ => framed_orThrow _ _)

/-- How far a text reaches does not depend on the charset. -/
theorem rest_of_text {cs' : Charset} {s' : String} {rest' : List UInt8}
    (h : text cs input = .ok (s, rest)) (h' : text cs' input = .ok (s', rest')) : rest = rest' := by
  obtain ⟨length, middle, hc, hcases⟩ := text_eq_ok.1 h
  obtain ⟨_, _, hc', hcases'⟩ := text_eq_ok.1 h'
  cases hc.symm.trans hc'
  rcases hcases with ⟨hz, -, rfl⟩ | ⟨hp, stored, rfl, hl, -⟩ | ⟨hn, stored, rfl, hl, -⟩ <;>
    rcases hcases' with ⟨hz', -, hm⟩ | ⟨hp', stored', hm, hl', -⟩ | ⟨hn', stored', hm, hl', -⟩ <;>
    first
    | omega
    | exact hm.symm
    | exact (List.append_inj hm (hl.trans hl'.symm)).2

/-- A text that the charset holds is read back from one byte for each character. -/
theorem reads_narrowText {stored : List UInt8} (hcs : cs.isSingleByte = true)
    (h : cs.encode? s = some stored) (hs : StorableText s) :
    Reads (text cs) (Encode.compact (Int32.ofNat (stored.length + 1)) ++ stored ++ [0]) s := by
  have hl := Charset.length_of_encode? hcs h
  unfold StorableText at hs
  have hint : (Int32.ofNat (stored.length + 1)).toInt = stored.length + 1 :=
    Int32.toInt_ofNat_of_lt (by omega)
  intro rest
  refine text_eq_ok.2 ⟨Int32.ofNat (stored.length + 1), stored ++ [0] ++ rest, ?_,
    .inr (.inl ⟨?_, stored ++ [0], rfl, ?_, ?_⟩)⟩
  · rw [List.append_assoc, List.append_assoc, List.append_assoc]
    exact reads_compact _ _
  · rw [hint]
    omega
  · rw [hint, List.length_append, List.length_singleton]
    omega
  · rw [List.dropLast_concat, Charset.decode_encode? h, textOf?_map_some, String.ofList_toList]

/-- Every text is read back from its units. -/
theorem reads_unitText (hs : (Utf16.encode s.toList).length < 0x80000000) :
    Reads (text cs) (Encode.compact (Int32.ofInt (-((Utf16.encode s.toList).length + 1))) ++
      Encode.wideTextUntilZero s) s := by
  have hint : (Int32.ofInt (-((Utf16.encode s.toList).length + 1))).toInt =
      -((Utf16.encode s.toList).length + 1) :=
    Int32.toInt_ofInt_of_le (by omega) (by omega)
  intro rest
  refine text_eq_ok.2 ⟨Int32.ofInt (-((Utf16.encode s.toList).length + 1)),
    Encode.wideTextUntilZero s ++ rest, ?_,
    .inr (.inr ⟨?_, Encode.wideTextUntilZero s, rfl, ?_, ?_⟩)⟩
  · rw [List.append_assoc]
    exact reads_compact _ _
  · rw [hint]
    omega
  · rw [hint, Encode.wideTextUntilZero, length_flatMap_u16, List.length_append,
      List.length_singleton]
    omega
  · rw [Encode.wideTextUntilZero, unitsOfBytes_flatMap, List.dropLast_concat, Utf16.decode_encode,
      textOf?_map_some, String.ofList_toList]

/-- A text is read back if its length fits the number in front of it. -/
theorem reads_text (hs : StorableText s) (hsize : (Encode.text cs s).length < 0x100000000) :
    Reads (text cs) (Encode.text cs s) s := by
  rcases Encode.text_cases cs s with ⟨stored, hcs, hstored, htext⟩ | ⟨-, htext⟩
  · exact (reads_narrowText hcs hstored hs).congr htext.symm
  · refine (reads_unitText ?_).congr htext.symm
    simp only [htext, List.length_append, Encode.wideTextUntilZero, length_flatMap_u16,
      List.length_singleton] at hsize
    omega

/-- A text that the charset holds takes one byte for each character, and six more at most. -/
theorem length_text_le {stored : List UInt8} (hcs : cs.isSingleByte = true)
    (h : cs.encode? s = some stored) : (Encode.text cs s).length ≤ s.length + 6 := by
  have hlength := Charset.length_of_encode? hcs h
  have hcompact := Encode.length_compact_le (Int32.ofNat (stored.length + 1))
  rw [Encode.text, if_pos hcs, h, List.length_append, List.length_append, List.length_singleton]
  omega

/-- A text of `2 ^ 31 - 1` characters is written with the lowest length there is, since the number
begins again behind the largest one. So it is taken for a text in units, for which 4 GiB would have
to follow. -/
theorem text_truncated {stored : List UInt8} (hcs : cs.isSingleByte = true)
    (h : cs.encode? s = some stored) (hlength : s.length = 0x7FFFFFFF)
    (hsize : (Encode.text cs s ++ rest).length < 0x100000000) :
    text cs (Encode.text cs s ++ rest) = .error .truncated := by
  have hstored : stored.length = 0x7FFFFFFF := (Charset.length_of_encode? hcs h).trans hlength
  have hcount : Int32.ofNat (stored.length + 1) = Int32.minValue := by
    rw [hstored]
    rfl
  have htext : Encode.text cs s = Encode.compact Int32.minValue ++ stored ++ [0] := by
    rw [← hcount, Encode.text, if_pos hcs, h]
  rw [htext, List.append_assoc, List.append_assoc] at hsize ⊢
  have hbehind : (stored ++ ([0] ++ rest)).length < 2 * 0x80000000 := by
    rw [List.length_append] at hsize
    omega
  show (compact (Encode.compact Int32.minValue ++ (stored ++ ([0] ++ rest))) >>= fun q => _) = _
  rw [reads_compact]
  show (bytes (2 * 0x80000000) (stored ++ ([0] ++ rest)) >>= fun q => _) = _
  rw [bytes_truncated hbehind]
  rfl

/-- A text that was read from less than 4 GiB can be stored again. -/
theorem storable_of_text (h : text cs input = .ok (s, rest)) (hsize : input.length < 0x100000000) :
    StorableText s := by
  unfold StorableText
  obtain ⟨length, middle, hc, hcases⟩ := text_eq_ok.1 h
  obtain ⟨front, rfl, -⟩ := framed_compact hc
  have hlt := length.toInt_lt
  rcases hcases with ⟨-, rfl, -⟩ | ⟨hpos, stored, rfl, hl, ht⟩ | ⟨-, stored, rfl, hl, ht⟩
  · decide
  · have h1 := length_of_textOf? ht
    have h2 := cs.length_decode_le stored.dropLast
    rw [List.length_dropLast] at h2
    omega
  · have h1 := length_of_textOf? ht
    have h2 := Utf16.length_decode_le (unitsOfBytes stored).dropLast
    have h3 := length_unitsOfBytes_le stored
    rw [List.length_dropLast] at h2
    simp only [List.length_append] at hsize
    omega

/-- A text that takes less than 2 GiB has a length that fits the number in front of it. -/
theorem storable_of_length {cs : Charset} {s : String}
    (h : (Encode.text cs s).length < 0x80000000) : StorableText s := by
  unfold StorableText
  rcases Encode.text_cases cs s with ⟨stored, hcs, hstored, htext⟩ | ⟨-, htext⟩
  · have hl := Charset.length_of_encode? hcs hstored
    have hpos := List.length_pos_iff.2 (Encode.compact_ne_nil (Int32.ofNat (stored.length + 1)))
    simp only [htext, List.length_append, List.length_singleton] at h
    omega
  · have hunits := Utf16.length_le_length_encode s.toList
    rw [String.length_toList] at hunits
    simp only [htext, List.length_append, Encode.wideTextUntilZero, length_flatMap_u16,
      List.length_singleton] at h
    omega

theorem text_ne_nil (cs : Charset) (s : String) : Encode.text cs s ≠ [] := by
  unfold Encode.text
  split <;> simp [Encode.compact_ne_nil]

/-! ## Texts up to a zero -/

/-- A text without a zero that the charset holds is read back up to the zero behind it. -/
theorem reads_textUntilZero {stored : List UInt8} (h : cs.encode? s = some stored)
    (hs : '\x00' ∉ s.toList) : Reads (textUntilZero cs) (Encode.textUntilZero cs s) s := by
  have hr : Reads untilZero (stored ++ [0]) stored :=
    reads_untilZero fun _ hb => Charset.ne_zero_of_mem_encode? h hs hb
  have h' := hr.map cs.decodeLossy
  rw [Charset.decodeLossy_of_decode (Charset.decode_encode? h)] at h'
  rw [Encode.textUntilZero, Charset.encodeLossy_of_encode? h]
  exact h'

/-- Units none of which is zero are read up to the zero behind them. -/
theorem reads_unitsUntilZero {units : List UInt16} (h : ∀ u ∈ units, u ≠ 0) (fuel : Nat)
    (hf : units.length < fuel) :
    Reads (unitsUntilZero fuel) ((units ++ [0]).flatMap Encode.u16) units := by
  induction units generalizing fuel with
  | nil =>
    obtain ⟨fuel, rfl⟩ := Nat.exists_eq_add_one_of_ne_zero (Nat.ne_of_gt hf)
    intro rest
    exact bind_eq_ok.2 ⟨0, rest, reads_u16 0 rest, rfl⟩
  | cons u units ih =>
    obtain ⟨fuel, rfl⟩ := Nat.exists_eq_add_one_of_ne_zero (Nat.ne_of_gt (Nat.zero_lt_of_lt hf))
    have hu : u ≠ 0 := h u List.mem_cons_self
    have hrest := ih (fun v hv => h v (List.mem_cons_of_mem u hv)) fuel (by simpa using hf)
    intro rest
    rw [List.cons_append, List.flatMap_cons, List.append_assoc]
    refine bind_eq_ok.2 ⟨u, _, reads_u16 u _, ?_⟩
    rw [if_neg hu]
    exact bind_eq_ok.2 ⟨units, rest, hrest rest, rfl⟩

/-- The units that are read up to a zero one hold none, and the zero unit stands behind them. -/
theorem split_of_unitsUntilZero {fuel : Nat} {units : List UInt16}
    (h : unitsUntilZero fuel input = .ok (units, rest)) :
    0 ∉ units ∧ input = (units ++ [0]).flatMap Encode.u16 ++ rest := by
  induction fuel generalizing input units with
  | zero => cases h
  | succ fuel ih =>
    obtain ⟨u, middle, hu, hmore⟩ := bind_eq_ok.1 h
    obtain rfl := u16_eq_ok.1 hu
    split at hmore
    · next h0 =>
      obtain ⟨rfl, rfl⟩ := pure_eq_ok.1 hmore
      rw [h0]
      exact ⟨List.not_mem_nil, by simp⟩
    · next h0 =>
      obtain ⟨units', middle', hunits, hpure⟩ := bind_eq_ok.1 hmore
      obtain ⟨rfl, rfl⟩ := pure_eq_ok.1 hpure
      obtain ⟨hzero, rfl⟩ := ih hunits
      refine ⟨fun hmem => ?_, by simp⟩
      rcases List.mem_cons.1 hmem with heq | hmem
      · exact h0 heq.symm
      · exact hzero hmem

/-- A text in UTF-16 that was read has the units in front of the first zero one. -/
theorem split_of_wideTextUntilZero {e : Error} (h : wideTextUntilZero e input = .ok (s, rest)) :
    ∃ units, 0 ∉ units ∧ input = (units ++ [0]).flatMap Encode.u16 ++ rest ∧
      textOf? (Utf16.decode units) = some s := by
  obtain ⟨_, _, hget, hread⟩ := bind_eq_ok.1 h
  cases hget
  obtain ⟨units, middle, hunits, htext⟩ := bind_eq_ok.1 hread
  obtain ⟨hzero, rfl⟩ := split_of_unitsUntilZero hunits
  cases hs : textOf? (Utf16.decode units) with
  | none =>
    rw [hs] at htext
    cases htext
  | some a =>
    rw [hs] at htext
    obtain ⟨rfl, rfl⟩ := pure_eq_ok.1 htext
    exact ⟨units, hzero, rfl, hs⟩

/-- Units without a zero that are a text are read as that text up to the zero behind them. -/
theorem reads_wideUnits {units : List UInt16} (e : Error) (hzero : 0 ∉ units)
    (hs : textOf? (Utf16.decode units) = some s) :
    Reads (wideTextUntilZero e) ((units ++ [0]).flatMap Encode.u16) s := by
  intro rest
  have hlength : units.length < ((units ++ [0]).flatMap Encode.u16 ++ rest).length + 1 := by
    simp only [List.length_append, length_flatMap_u16, List.length_singleton]
    omega
  have hunits := reads_unitsUntilZero (fun u hu h0 => hzero (h0 ▸ hu)) _ hlength
  refine bind_eq_ok.2 ⟨_, _, rfl, bind_eq_ok.2 ⟨_, rest, hunits rest, ?_⟩⟩
  rw [hs]
  rfl

/-- A text without a zero is read back from its units up to the zero behind them. -/
theorem reads_wideTextUntilZero (e : Error) (hs : '\x00' ∉ s.toList) :
    Reads (wideTextUntilZero e) (Encode.wideTextUntilZero s) s := by
  refine reads_wideUnits e (fun h0 => Utf16.ne_zero_of_mem_encode hs h0 rfl) ?_
  rw [Utf16.decode_encode, textOf?_map_some, String.ofList_toList]

end Decode

end UnrealPackage
