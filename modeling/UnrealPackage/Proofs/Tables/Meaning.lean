import UnrealPackage.Package.Exports
import UnrealPackage.Proofs.Tables.Growth
import UnrealPackage.Proofs.Tables.Known
import UnrealPackage.Proofs.Tables.Lookup
/-!
# References that stand for names

The class and the super of an export are given by full names. `Tables.Means` says which references
stand for a name; the one that a look-up finds does (`means_referenceTo`), and it still does when
the tables have grown (`Means.grow`). `Tables.Serves` collects what an export needs of the tables it
is added to.
-/

namespace UnrealPackage

namespace Tables

variable {t t' : Tables} {name : String} {i : Nat}

/-- The reference stands for the name. For the empty one it is none. For another one it leads to an
object with this full name: an import, or an export with or without the package in front. -/
inductive Means (t : Tables) (name : String) (r : ObjectRef) : Prop
  | nothing (hname : name = "") (hr : r = .none)
  | imported {i : Nat} {s : String} (hname : name ≠ "") (hr : r.target = .imported i)
    (hs : t.importFullName i = .ok s) (hsame : sameName s name = true)
  | exported {i : Nat} (hname : name ≠ "") (hr : r.target = .exported i)
    (hexport : t.HasName name i ∨ t.HasInnerName name i)

theorem HasInnerName.grow (h : t.HasInnerName name i) (hgrows : t.Grows t') :
    t'.HasInnerName name i := by
  obtain ⟨hi, s, hs, hsame⟩ := h
  exact ⟨Nat.lt_of_lt_of_le hi hgrows.exports.length_le, s, hgrows.innerFullName hs, hsame⟩

/-- An export has the same full name in tables that grow. -/
theorem HasName.grow (h : t.HasName name i) (hgrows : t.Grows t') : t'.HasName name i := by
  obtain ⟨s, hs, hsame⟩ := h
  obtain ⟨hi, inner, hinner, rfl⟩ := exportFullName_eq_ok.1 hs
  refine ⟨_, exportFullName_eq_ok.2 ⟨Nat.lt_of_lt_of_le hi hgrows.exports.length_le, inner,
    hgrows.innerFullName hinner, rfl⟩, ?_⟩
  rwa [hgrows.package]

/-- A reference stands for the same name when the tables have grown. -/
theorem Means.grow {r : ObjectRef} (h : t.Means name r) (hgrows : t.Grows t') :
    t'.Means name r := by
  cases h with
  | nothing hname hr => exact .nothing hname hr
  | imported hname hr hs hsame => exact .imported hname hr (hgrows.importFullName hs) hsame
  | exported hname hr hexport =>
    exact .exported hname hr (hexport.imp (·.grow hgrows) (·.grow hgrows))

/-- The import that is found has the full name. -/
theorem of_findImport? (h : t.findImport? name = some i) : i < t.imports.length ∧
    ∃ s, t.importFullName i = .ok s ∧ sameName s name = true := by
  rw [findImport?, List.find?_range_eq_some] at h
  obtain ⟨hfits, hi, -⟩ := h
  refine ⟨List.mem_range.1 hi, ?_⟩
  split at hfits
  · cases hfits
  · next s hs => exact ⟨s, hs, hfits⟩

/-- The export that is found is called so, in one of the two ways. -/
theorem of_findExport? (h : t.findExport? name = some i) : i < t.exports.length ∧
    (t.HasName name i ∨ t.HasInnerName name i) := by
  rw [findExport?, List.find?_range_eq_some] at h
  obtain ⟨hbears, hi, -⟩ := h
  exact ⟨List.mem_range.1 hi, hasName_or_hasInnerName (List.mem_range.1 hi) hbears⟩

theorem means_ofImport (hlength : t.imports.length ≤ 0x80000000) (hname : name ≠ "")
    (h : t.findImport? name = some i) : t.Means name (.ofImport i) := by
  obtain ⟨hi, s, hs, hsame⟩ := of_findImport? h
  exact .imported hname (ObjectRef.target_ofImport (by omega)) hs hsame

/-- What is found under a name stands for it. -/
theorem means_referenceTo (himports : t.imports.length ≤ 0x80000000)
    (hexports : t.exports.length < 0x80000000) (hname : name ≠ "")
    (h : ¬(t.referenceTo name).isNone = true) : t.Means name (t.referenceTo name) := by
  rw [referenceTo] at h ⊢
  split
  · next i _ hi => exact means_ofImport himports hname hi
  · next i _ hi =>
    obtain ⟨hlt, hexport⟩ := of_findExport? hi
    exact .exported hname (ObjectRef.target_ofExport (by omega)) hexport
  · next hnone hnone' =>
    rw [hnone, hnone'] at h
    exact absurd rfl h

/-- The tables have the names that an export needs, and these references stand for its class, its
super and the class of the packages around it, if there are any. -/
structure Serves (t : Tables) (r : ExportRequest) (type super packageType : ObjectRef) : Prop where
  knows : ∀ n ∈ noneName :: segments r.name, t.Knows n
  type : t.Means r.type type
  super : t.Means r.super super
  package : 1 < (segments r.name).length → t.Means "Core.Package" packageType

end Tables

end UnrealPackage
