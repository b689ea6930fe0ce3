import UnrealPackage.Proofs.Binary.Text
/-!
# What a stored text comes back as

`Decode.texts_readBack`: every text is read back from each of the three ways to store it, in every
charset. Its length in front has to fit a number of 32 bits, and a text that ends at a zero may hold
none itself, nor a character for which the charset has no bytes.

The length decides how the text is stored: it is positive, so that each character takes one byte, if
the charset has one character a byte and holds them all (`isNarrow_text_iff`).
-/

namespace UnrealPackage

variable {cs : Charset} {s : String} {input rest : List UInt8}

/-- The number of 16-bit units of a text. -/
def unitLength (s : String) : Nat :=
  (Utf16.encode s.toList).length

/-- Whether a text with its length in front is stored in the charset, and not in units. -/
def IsNarrow (form : List UInt8) : Prop :=
  ∃ length rest, Decode.compact form = .ok (length, rest) ∧ 0 < length.toInt

/-- A text has no more characters than units. -/
theorem length_le_unitLength (s : String) : s.length ≤ unitLength s := by
  rw [← String.length_toList]
  exact Utf16.length_le_length_encode s.toList

theorem storable_of_unitLength (h : unitLength s < 0x7FFFFFFF) : StorableText s :=
  Nat.lt_of_le_of_lt (length_le_unitLength s) h

namespace Decode

/-! ## Writing -/

/-- A text is read back if its length fits, whichever way it is stored. -/
theorem reads_text_of_unitLength (hs : StorableText s) (hunits : unitLength s < 0x80000000) :
    Reads (text cs) (Encode.text cs s) s := by
  rcases Encode.text_cases cs s with ⟨stored, hcs, hstored, htext⟩ | ⟨-, htext⟩
  · exact (reads_narrowText hcs hstored hs).congr htext.symm
  · exact (reads_unitText hunits).congr htext.symm

/-- A text is stored in the charset exactly if it has one character a byte and holds them all. -/
theorem isNarrow_text_iff (h : unitLength s < 0x7FFFFFFF) : IsNarrow (Encode.text cs s) ↔
    cs.isSingleByte = true ∧ ∀ c ∈ s.toList, cs.Holds c := by
  rw [← Charset.exists_encode?_iff]
  rcases Encode.text_cases cs s with ⟨stored, hcs, hstored, htext⟩ | ⟨hwide, htext⟩
  · refine ⟨fun _ => ⟨hcs, stored, hstored⟩, fun _ => ?_⟩
    have hl := Charset.length_of_encode? hcs hstored
    have hle := length_le_unitLength s
    refine ⟨Int32.ofNat (stored.length + 1), stored ++ [0], ?_, ?_⟩
    · rw [htext, List.append_assoc]
      exact reads_compact _ _
    · rw [Int32.toInt_ofNat_of_lt (by omega)]
      omega
  · refine ⟨?_, fun h => absurd h hwide⟩
    rintro ⟨length, rest, hlength, hpos⟩
    rw [htext, reads_compact] at hlength
    obtain ⟨hlength, -⟩ := Prod.mk.inj (Except.ok.inj hlength)
    have hunits : (Utf16.encode s.toList).length < 0x7FFFFFFF := h
    rw [← hlength, Int32.toInt_ofInt_of_le (by omega) (by omega)] at hpos
    omega

/-! ## Reading -/

/-- What was read as a text takes less than 2 ^ 31 - 1 units, or exactly as many, and it was read
from more than 4 GiB. -/
theorem unitLength_of_text (h : text cs input = .ok (s, rest)) :
    unitLength s < 0x7FFFFFFF ∨ unitLength s = 0x7FFFFFFF ∧ 0x100000000 < input.length := by
  obtain ⟨length, middle, hlength, hstored⟩ := text_eq_ok.1 h
  have hlt := length.toInt_lt
  have hle := length.le_toInt
  rcases hstored with ⟨-, rfl, -⟩ | ⟨hpos, stored, -, hl, htext⟩ | ⟨hneg, stored, rfl, hl, htext⟩
  · exact .inl (by decide)
  · left
    have hunits := Charset.length_encode_of_decode (eq_map_some_of_textOf? htext)
    rw [List.length_dropLast] at hunits
    exact Nat.lt_of_le_of_lt hunits (by omega)
  · have hunits : unitLength s = (unitsOfBytes stored).length - 1 := by
      rw [unitLength, Utf16.encode_of_decode (eq_map_some_of_textOf? htext), List.length_dropLast]
    have hbytes := length_unitsOfBytes_le stored
    obtain ⟨front, rfl, hfront⟩ := framed_compact hlength
    have hpos : front ≠ [] := by
      rintro rfl
      cases hfront []
    rw [List.length_append, List.length_append]
    have := List.length_pos_iff.2 hpos
    omega

/-- What texts are read back as. A text of less than 2 ^ 31 - 1 units is read back from the form
with its length in front, which has one byte for each character exactly if the charset has one
character a byte and holds them all. One without a zero is read back from its units up to a zero
one, and from its bytes up to a zero one if the charset holds its characters. A text that was read
is read back again if it has less than 2 ^ 31 - 1 characters, as every text has that was read from
no more than 4 GiB. -/
theorem texts_readBack (cs : Charset) :
    (∀ s, unitLength s < 0x7FFFFFFF →
      (∀ rest, text cs (Encode.text cs s ++ rest) = .ok (s, rest)) ∧
      (IsNarrow (Encode.text cs s) ↔ cs.isSingleByte = true ∧ ∀ c ∈ s.toList, cs.Holds c)) ∧
    (∀ s, '\x00' ∉ s.toList →
      (∀ e rest, wideTextUntilZero e (Encode.wideTextUntilZero s ++ rest) = .ok (s, rest)) ∧
      ((∀ c ∈ s.toList, cs.Holds c) → ∀ rest,
        textUntilZero cs (Encode.textUntilZero cs s ++ rest) = .ok (s, rest))) ∧
    ∀ input s rest, text cs input = .ok (s, rest) →
      (s.length < 0x7FFFFFFF → ∀ more, text cs (Encode.text cs s ++ more) = .ok (s, more)) ∧
      (input.length ≤ 0x100000000 → s.length < 0x7FFFFFFF) := by
  refine ⟨fun s h => ⟨?_, isNarrow_text_iff h⟩, fun s h => ⟨?_, fun hholds => ?_⟩, ?_⟩
  · exact reads_text_of_unitLength (storable_of_unitLength h) (Nat.lt_trans h (by decide))
  · exact fun e => reads_wideTextUntilZero e h
  · obtain ⟨stored, hstored⟩ := Charset.exists_encode?_iff.2 hholds
    exact reads_textUntilZero hstored h
  · intro input s rest h
    have hunits := unitLength_of_text h
    refine ⟨fun hs => reads_text_of_unitLength hs ?_, fun hinput => storable_of_unitLength ?_⟩
    · rcases hunits with hlt | ⟨heq, -⟩ <;> omega
    · rcases hunits with hlt | ⟨-, hlt⟩
      · exact hlt
      · exact absurd hinput (Nat.not_le.2 hlt)

/-- A Cyrillic text, and a Latin one that was stored in units. -/
theorem texts_readBack_cyrillic :
    unitLength "мир" < 0x7FFFFFFF ∧ '\x00' ∉ "мир".toList ∧
    (∀ c ∈ "мир".toList, Charset.windows1251.Holds c) ∧
    text .windows1251 (Encode.text .windows1251 "мир" ++ [7]) = .ok ("мир", [7]) ∧
    IsNarrow (Encode.text .windows1251 "мир") ∧
    textUntilZero .windows1251 (Encode.textUntilZero .windows1251 "мир" ++ [7]) =
      .ok ("мир", [7]) ∧
    text .windows1251 [0x82, 0x41, 0, 0, 0] = .ok ("A", []) ∧
    text .windows1251 (Encode.text .windows1251 "A" ++ [7]) = .ok ("A", [7]) := by
  obtain ⟨hfront, hzero, hagain⟩ := texts_readBack .windows1251
  have hunits : unitLength "мир" < 0x7FFFFFFF := by decide
  have hnul : '\x00' ∉ "мир".toList := by decide
  have hholds : ∀ c ∈ "мир".toList, Charset.windows1251.Holds c :=
    Charset.exists_encode?_iff.1 ⟨[0xEC, 0xE8, 0xF0], by decide⟩
  have hwide : text .windows1251 [0x82, 0x41, 0, 0, 0] = .ok ("A", []) := rfl
  refine ⟨hunits, hnul, hholds, (hfront _ hunits).1 [7], (hfront _ hunits).2.2 ⟨rfl, hholds⟩,
    (hzero _ hnul).2 hholds [7], hwide, ?_⟩
  exact (hagain _ _ _ hwide).1 (by decide) [7]

/-- So many letters take as many units. -/
theorem unitLength_letters (n : Nat) : unitLength (letters n) = n := by
  have hunits : (Utf16.encode (letters n).toList).length = (letters n).toList.length := by
    refine Utf16.length_encode_of_lt fun c hc => ?_
    rw [eq_of_mem_letters hc]
    decide
  rw [unitLength, hunits, String.length_toList, length_letters]

/-- The units of so many letters, behind the lowest length there is. -/
def unitForm (n : Nat) : List UInt8 :=
  Encode.compact Int32.minValue ++ Encode.wideTextUntilZero (letters n)

/-- They are read if the length is theirs, and what was read is written again with the same length
but one byte for each character. -/
theorem text_unitForm {n : Nat} (hn : n = 0x7FFFFFFF) :
    text .windows1252 (unitForm n) = .ok (letters n, []) ∧
      text .windows1252 (Encode.text .windows1252 (letters n)) = .error .truncated := by
  have hstored : Charset.windows1252.encode? (letters n) = some (List.replicate n 0x41) :=
    Charset.encode?_letters rfl n
  have hlength : (letters n).length = 0x7FFFFFFF := (length_letters n).trans hn
  constructor
  · have hunits : (Utf16.encode (letters n).toList).length = n := unitLength_letters n
    have hcount : Int32.ofInt (-(n + 1)) = Int32.minValue := by
      rw [hn]
      rfl
    have hread : Reads (text .windows1252) _ (letters n) := reads_unitText (by rw [hunits]; omega)
    rw [hunits, hcount] at hread
    have hread := hread []
    rwa [List.append_nil] at hread
  · have hsize := length_text_le rfl hstored
    have hshort : (Encode.text .windows1252 (letters n) ++ []).length < 0x100000000 := by
      rw [List.append_nil]
      omega
    have htext := text_truncated rfl hstored hlength hshort
    rwa [List.append_nil] at htext

/-- The third part needs its bound: 4 GiB of units are read as a text of `2 ^ 31 - 1` characters,
which are not read back from one byte each. -/
theorem texts_readBack_needs_length :
    text .windows1252 (unitForm 0x7FFFFFFF) = .ok (letters 0x7FFFFFFF, []) ∧
      text .windows1252 (Encode.text .windows1252 (letters 0x7FFFFFFF)) = .error .truncated :=
  text_unitForm rfl

end Decode

end UnrealPackage
