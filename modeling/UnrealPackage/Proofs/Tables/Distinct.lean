import UnrealPackage.Proofs.Tables.Known
/-!
# Name tables without repeated names

`NamesDistinct names` says that no two entries bear the same name. An index and a name then stand
for each other: a name that is found by its index is found at that index
(`NamesDistinct.nameIndex_name`).

Names that are added are new, so a table of distinct names stays one (`NamesAdded.distinct`). A name
that is put in the place of another need not be, and the table stays one exactly if it is
(`namesDistinct_set_iff`).
-/

namespace UnrealPackage

/-- No two entries bear the same name. -/
def NamesDistinct (names : List NameEntry) : Prop :=
  names.Pairwise fun x y => sameName x.name y.name = false

instance (names : List NameEntry) : Decidable (NamesDistinct names) :=
  inferInstanceAs (Decidable (List.Pairwise _ names))

variable {names before entries after : List NameEntry} {e : NameEntry}

/-- Entries that bear the same name are one. -/
theorem namesDistinct_iff : NamesDistinct names ↔ ∀ (i j : Nat) (x y : NameEntry),
    names[i]? = some x → names[j]? = some y → sameName x.name y.name = true → i = j := by
  rw [NamesDistinct, List.pairwise_iff_getElem]
  constructor
  · intro h i j x y hx hy hsame
    obtain ⟨hi, rfl⟩ := List.getElem?_eq_some_iff.1 hx
    obtain ⟨hj, rfl⟩ := List.getElem?_eq_some_iff.1 hy
    rcases Nat.lt_trichotomy i j with hlt | heq | hgt
    · rw [h i j hi hj hlt] at hsame
      cases hsame
    · exact heq
    · rw [sameName_comm, h j i hj hi hgt] at hsame
      cases hsame
  · intro h i j hi hj hlt
    rw [← Bool.not_eq_true]
    intro hsame
    have heq := h i j _ _ (List.getElem?_eq_getElem hi) (List.getElem?_eq_getElem hj) hsame
    omega

/-- Only names are added that are not there. -/
theorem NamesAdded.distinct (h : NamesAdded before entries after)
    (hbefore : NamesDistinct before) : NamesDistinct after := by
  obtain ⟨more, rfl, -, hnew, hmore, -⟩ := h
  exact List.pairwise_append.2 ⟨hbefore, hmore, hnew⟩

/-- The name that an entry is replaced with must not be another entry's. -/
theorem namesDistinct_set_iff {index : Nat} (h : NamesDistinct names)
    (hindex : index < names.length) : NamesDistinct (names.set index e) ↔
      ∀ (i : Nat) (x : NameEntry), i ≠ index → names[i]? = some x →
        sameName x.name e.name = false := by
  have hself : (names.set index e)[index]? = some e := List.getElem?_set_self hindex
  constructor
  · intro hset i x hi hx
    rw [← Bool.not_eq_true]
    intro hsame
    have hother : (names.set index e)[i]? = some x := by
      rw [List.getElem?_set_ne (Ne.symm hi), hx]
    exact hi (namesDistinct_iff.1 hset i index x e hother hself hsame)
  · intro hfresh
    refine namesDistinct_iff.2 fun i j x y hx hy hsame => ?_
    by_cases hi : i = index
    · subst hi
      cases hself.symm.trans hx
      by_cases hj : j = i
      · exact hj.symm
      · rw [List.getElem?_set_ne (Ne.symm hj)] at hy
        rw [sameName_comm, hfresh j y hj hy] at hsame
        cases hsame
    · rw [List.getElem?_set_ne (Ne.symm hi)] at hx
      by_cases hj : j = index
      · subst hj
        cases hself.symm.trans hy
        rw [hfresh i x hi hx] at hsame
        cases hsame
      · rw [List.getElem?_set_ne (Ne.symm hj)] at hy
        exact namesDistinct_iff.1 h i j x y hx hy hsame

namespace NamesDistinct

variable {t : Tables} {name : String}

/-- A name is found where an entry bears it. -/
theorem nameIndex?_eq_some_iff (h : NamesDistinct t.names) {i : Nat} :
    t.nameIndex? name = some i ↔ ∃ e, t.names[i]? = some e ∧ sameName e.name name = true := by
  rw [Tables.nameIndex?, List.findIdx?_eq_some_iff_getElem]
  constructor
  · rintro ⟨hi, hsame, -⟩
    exact ⟨t.names[i], List.getElem?_eq_getElem hi, hsame⟩
  · rintro ⟨e, he, hsame⟩
    obtain ⟨hi, rfl⟩ := List.getElem?_eq_some_iff.1 he
    refine ⟨hi, hsame, fun j hj hsame' => ?_⟩
    have hboth : sameName t.names[j].name t.names[i].name = true := by
      rwa [sameName_congr hsame]
    have heq := namesDistinct_iff.1 h j i _ _ (List.getElem?_eq_getElem (by omega)) he hboth
    omega

/-- The index of the name at an index is that index. -/
theorem nameIndex_name (h : NamesDistinct t.names) {index : NameIndex}
    (hname : t.name index = .ok name) : t.nameIndex name = .ok index := by
  obtain ⟨hpos, e, he, rfl⟩ := Tables.name_eq_ok_iff.1 hname
  have hfind : t.nameIndex? e.name = some index.toInt.toNat :=
    h.nameIndex?_eq_some_iff.2 ⟨e, he, sameName_iff.2 rfl⟩
  have hindex : Int32.ofNat index.toInt.toNat = index := by
    apply Int32.toInt_inj.1
    have hlt := index.toInt_lt
    rw [Int32.toInt_ofNat_of_lt (by omega), Int.toNat_of_nonneg hpos]
  rw [Tables.nameIndex, hfind]
  exact congrArg Except.ok hindex

end NamesDistinct

end UnrealPackage
