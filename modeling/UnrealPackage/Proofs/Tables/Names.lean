import UnrealPackage.Proofs.Binary.CompactInt
import UnrealPackage.Tables.Basic
/-!
# Names written by index and read back

A name is looked up without regard to case, so what is read back is the spelling of the first entry
that bears it. `Tables.Spells` relates the two; `sameName` is an equivalence, so it does not matter
by which of the spellings a name is looked for afterwards.
-/

namespace UnrealPackage

/-! ## The same name -/

theorem sameName_iff {a b : String} : sameName a b = true ↔ foldCase a = foldCase b :=
  beq_iff_eq

/-- A name is looked for by any of its spellings. -/
theorem sameName_congr {a b c : String} (h : sameName a b = true) :
    sameName c a = sameName c b := by
  rw [sameName, sameName, sameName_iff.1 h]

theorem sameName_comm (a b : String) : sameName a b = sameName b a :=
  Bool.beq_comm

/-- Spellings of a name have as many characters. -/
theorem length_eq_of_sameName {a b : String} (h : sameName a b = true) : a.length = b.length := by
  have hfold := congrArg String.length (sameName_iff.1 h)
  simpa only [foldCase, String.length_ofList, List.length_map, String.length_toList] using hfold

/-! ## Names by index -/

/-- A name is found by the index of its entry. -/
theorem Tables.name_eq_ok_iff {t : Tables} {index : NameIndex} {name : String} :
    t.name index = .ok name ↔
      0 ≤ index.toInt ∧ ∃ e, t.names[index.toInt.toNat]? = some e ∧ e.name = name := by
  unfold Tables.name
  dsimp only
  constructor
  · intro h
    split at h
    · next e hfound =>
      cases h
      obtain ⟨hpos, hentry⟩ := Option.ite_none_right_eq_some.1 hfound
      exact ⟨hpos, e, hentry, rfl⟩
    · cases h
  · rintro ⟨hpos, e, hentry, rfl⟩
    rw [if_pos hpos, hentry]
    rfl

/-! ## Spellings -/

/-- Whether the first entry that bears the name is spelled `spelled`, and stands at an index that a
reference to a name can hold. -/
def Tables.Spells (t : Tables) (name spelled : String) : Prop :=
  ∃ i, t.nameIndex? name = some i ∧ i < 0x80000000 ∧ (t.names[i]?).map (·.name) = some spelled

/-- The index that is written for a name leads to its spelling. -/
theorem Tables.Spells.exists_index {t : Tables} {name spelled : String}
    (h : t.Spells name spelled) : ∃ index, t.nameIndex name = .ok index ∧
      t.name index = .ok spelled ∧ sameName spelled name = true := by
  obtain ⟨i, hfind, hi, hspelled⟩ := h
  obtain ⟨entry, hentry, rfl⟩ := Option.map_eq_some_iff.1 hspelled
  have hint : (Int32.ofNat i).toInt = i := Int32.toInt_ofNat_of_lt hi
  refine ⟨Int32.ofNat i, ?_, ?_, ?_⟩
  · rw [Tables.nameIndex, hfind]
    rfl
  · rw [Tables.name_eq_ok_iff, hint, Int.toNat_natCast]
    exact ⟨Int.natCast_nonneg i, entry, hentry, rfl⟩
  · obtain ⟨hlt, hp, -⟩ := List.findIdx?_eq_some_iff_getElem.1 hfind
    rw [List.getElem?_eq_getElem hlt] at hentry
    cases hentry
    exact hp

end UnrealPackage
