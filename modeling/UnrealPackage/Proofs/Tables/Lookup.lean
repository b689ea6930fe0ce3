import Mathlib.Data.List.Range
import UnrealPackage.Proofs.Tables.FullNameMemo
/-!
# Exports found by their full names

A name that an export is looked up by is taken in two ways: as its full name, and as its full name
without the package in front. `exportBears_iff` tells the two apart, and `findExport?_eq_some_iff`
says that the first export counts that has the name in one of them.

So a full name leads to an export that has it, unless an export in front of all those is called the
same inside the package (`findExport?_of_hasName`).
-/

namespace UnrealPackage

namespace Tables

variable {t : Tables} {name s : String} {i j k : Nat}

/-- The full name of the export is `name`, up to case. -/
def HasName (t : Tables) (name : String) (i : Nat) : Prop :=
  ∃ s, t.exportFullName i = .ok s ∧ sameName s name = true

/-- The export is called `name` inside its package, up to case. -/
def HasInnerName (t : Tables) (name : String) (i : Nat) : Prop :=
  i < t.exports.length ∧ ∃ s, t.innerFullName (.ofExport i) = .ok s ∧ sameName s name = true

/-- Whether a value is there that passes a test can be decided by looking for it. -/
theorem exists_ok_iff {α : Type} {x : Except Error α} (test : α → Bool) :
    (∃ a, x = .ok a ∧ test a = true) ↔ x.toOption.any test = true := by
  cases x with
  | error e => exact ⟨nofun, nofun⟩
  | ok a => exact ⟨fun ⟨_, ha, h⟩ => by cases ha; exact h, fun h => ⟨a, rfl, h⟩⟩

instance (t : Tables) (name : String) (i : Nat) : Decidable (t.HasName name i) :=
  decidable_of_iff' _ (exists_ok_iff (sameName · name))

instance (t : Tables) (name : String) (i : Nat) : Decidable (t.HasInnerName name i) :=
  have : Decidable (∃ s, t.innerFullName (.ofExport i) = .ok s ∧ sameName s name = true) :=
    decidable_of_iff' _ (exists_ok_iff (sameName · name))
  inferInstanceAs (Decidable (_ ∧ _))

/-- The full name of an export is its name inside the package behind that of the package. -/
theorem exportFullName_eq_ok : t.exportFullName i = .ok s ↔ i < t.exports.length ∧
    ∃ inner, t.innerFullName (.ofExport i) = .ok inner ∧ s = dotted [t.package, inner] := by
  constructor
  · intro h
    obtain ⟨e, he, h⟩ := except_bind_eq_ok.1 h
    obtain ⟨inner, hinner, h⟩ := except_bind_eq_ok.1 h
    refine ⟨?_, inner, hinner, (Except.ok.inj h).symm⟩
    rw [exportAt] at he
    split at he
    · next hfound => exact (List.getElem?_eq_some_iff.1 hfound).1
    · cases he
  · rintro ⟨hi, inner, hinner, rfl⟩
    rw [exportFullName, exportAt, List.getElem?_eq_getElem hi]
    exact except_bind_eq_ok.2 ⟨_, rfl, except_bind_eq_ok.2 ⟨inner, hinner, rfl⟩⟩

/-- What is left of a name behind that of the package makes up the full name with it. -/
theorem sameName_of_withoutPackage? {inner : String}
    (h : (t.withoutPackage? name).any (sameName inner) = true) :
    sameName (dotted [t.package, inner]) name = true := by
  rw [withoutPackage?] at h
  split at h
  · next head rest hsplit =>
    obtain ⟨-, rfl⟩ := splitFirstDot?_eq_some.1 hsplit
    split at h
    · next hhead =>
      have hrest : foldCase inner = foldCase rest := sameName_iff.1 h
      rw [sameName_iff, foldCase_dotted, foldCase_dotted, List.map_cons, List.map_cons,
        List.map_cons, List.map_cons, hrest, sameName_iff.1 hhead]
    · cases h
  · cases h

/-- Nothing else is left of a full name if the name of the package has no dot itself. -/
theorem withoutPackage?_any_iff {inner : String} (hdot : '.' ∉ t.package.toList) :
    (t.withoutPackage? name).any (sameName inner) = true ↔
      sameName (dotted [t.package, inner]) name = true := by
  refine ⟨sameName_of_withoutPackage?, fun h => ?_⟩
  have hwhole : splitFirstDot? (dotted [t.package, inner]) = some (t.package, inner) :=
    splitFirstDot?_eq_some.2 ⟨hdot, rfl⟩
  have hfold := t.withoutPackage?_map_foldCase (sameName_iff.1 h)
  rw [withoutPackage?, hwhole] at hfold
  dsimp only at hfold
  rw [if_pos (sameName_iff.2 rfl), Option.map_some, eq_comm, Option.map_eq_some_iff] at hfold
  obtain ⟨rest, hrest, hfold⟩ := hfold
  rw [hrest]
  exact sameName_iff.2 hfold.symm

/-- A name fits an export in two ways. -/
theorem hasName_or_hasInnerName (hi : i < t.exports.length) (h : t.exportBears name i = true) :
    t.HasName name i ∨ t.HasInnerName name i := by
  rw [exportBears] at h
  split at h
  · cases h
  · next inner hinner =>
    rcases (Bool.or_eq_true ..).mp h with h | h
    · exact .inr ⟨hi, inner, hinner, h⟩
    · exact .inl ⟨_, exportFullName_eq_ok.2 ⟨hi, inner, hinner, rfl⟩,
        sameName_of_withoutPackage? h⟩

/-- An export bears a name exactly if that is its full name or its name in the package. -/
theorem exportBears_iff (hdot : '.' ∉ t.package.toList) (hi : i < t.exports.length) :
    t.exportBears name i = true ↔ t.HasName name i ∨ t.HasInnerName name i := by
  refine ⟨hasName_or_hasInnerName hi, ?_⟩
  rw [exportBears]
  rintro (⟨s, hs, hsame⟩ | ⟨-, inner, hinner, hsame⟩)
  · obtain ⟨-, inner, hinner, rfl⟩ := exportFullName_eq_ok.1 hs
    rw [hinner]
    exact (Bool.or_eq_true ..).mpr (.inr ((withoutPackage?_any_iff hdot).2 hsame))
  · rw [hinner]
    exact (Bool.or_eq_true ..).mpr (.inl hsame)

theorem HasName.index_lt (h : t.HasName name i) : i < t.exports.length := by
  obtain ⟨s, hs, -⟩ := h
  exact (exportFullName_eq_ok.1 hs).1

/-- No export is called the same in both ways: its full name is the longer one. -/
theorem HasName.not_hasInnerName (h : t.HasName name i) : ¬t.HasInnerName name i := by
  rintro ⟨-, inner, hinner, hsame⟩
  obtain ⟨s, hs, hsame'⟩ := h
  obtain ⟨-, inner', hinner', rfl⟩ := exportFullName_eq_ok.1 hs
  cases hinner.symm.trans hinner'
  have hfold := congrArg (fun s => s.toList.length)
    ((sameName_iff.1 hsame').trans (sameName_iff.1 hsame).symm)
  simp only [foldCase, String.toList_ofList, List.length_map, toList_dotted_pair,
    List.length_append, List.length_cons] at hfold
  omega

/-- The first export that a name fits in one of the two ways is found. -/
theorem findExport?_eq_some_iff (hdot : '.' ∉ t.package.toList) :
    t.findExport? name = some j ↔ (t.HasName name j ∨ t.HasInnerName name j) ∧
      ∀ k < j, ¬t.HasName name k ∧ ¬t.HasInnerName name k := by
  rw [findExport?, List.find?_range_eq_some, List.mem_range]
  constructor
  · rintro ⟨hbears, hj, hfront⟩
    refine ⟨(exportBears_iff hdot hj).1 hbears, fun k hk => ?_⟩
    have hnot := hfront k hk
    rwa [Bool.not_eq_true', ← Bool.not_eq_true, exportBears_iff hdot (Nat.lt_trans hk hj),
      not_or] at hnot
  · rintro ⟨hbears, hfront⟩
    have hj : j < t.exports.length := hbears.elim HasName.index_lt And.left
    refine ⟨(exportBears_iff hdot hj).2 hbears, hj, fun k hk => ?_⟩
    rw [Bool.not_eq_true', ← Bool.not_eq_true, exportBears_iff hdot (Nat.lt_trans hk hj), not_or]
    exact hfront k hk

/-- An export is found by its full name exactly if it is the first one that the name fits. -/
theorem findExport?_eq_self_iff (hdot : '.' ∉ t.package.toList) (h : t.HasName name i) :
    t.findExport? name = some i ↔ ∀ k < i, ¬t.HasName name k ∧ ¬t.HasInnerName name k := by
  rw [findExport?_eq_some_iff hdot]
  exact and_iff_right (.inl h)

/-- What the full name of an export leads to: an export that has it, unless one in front of all
those has it as its name inside the package. -/
theorem findExport?_of_hasName (hdot : '.' ∉ t.package.toList) (h : t.HasName name i) :
    ∃ j, t.findExport? name = some j ∧ j ≤ i ∧ (t.HasName name j ∨ t.HasInnerName name j) ∧
      (t.HasName name j ↔ ∀ k, t.HasInnerName name k → ∃ m < k, t.HasName name m) ∧
      (j = i ↔ ∀ k < i, ¬t.HasName name k ∧ ¬t.HasInnerName name k) := by
  obtain ⟨j, hj⟩ : ∃ j, t.findExport? name = some j := by
    rw [← Option.isSome_iff_exists, findExport?, List.find?_isSome]
    exact ⟨i, List.mem_range.2 h.index_lt, (exportBears_iff hdot h.index_lt).2 (.inl h)⟩
  obtain ⟨hbears, hfront⟩ := (findExport?_eq_some_iff hdot).1 hj
  have hle : j ≤ i := Nat.le_of_not_lt fun hlt => (hfront i hlt).1 h
  refine ⟨j, hj, hle, hbears, ⟨fun hname k hk => ⟨j, ?_, hname⟩, fun hall => ?_⟩, ?_⟩
  · refine Nat.lt_of_le_of_ne (Nat.le_of_not_lt fun hlt => (hfront k hlt).2 hk) ?_
    rintro rfl
    exact hname.not_hasInnerName hk
  · refine hbears.resolve_right fun hinner => ?_
    obtain ⟨m, hm, hname⟩ := hall j hinner
    exact (hfront m hm).1 hname
  · rw [← findExport?_eq_self_iff hdot h, hj, Option.some_inj]

end Tables

end UnrealPackage
