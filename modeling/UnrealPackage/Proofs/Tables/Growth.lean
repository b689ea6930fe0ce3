import UnrealPackage.Proofs.Tables.Names
import UnrealPackage.Proofs.Tables.Owners
/-!
# Tables that grow

`Tables.Grows t t'`: entries were added behind those there were, in each of the tables. What a
reference or a name index leads to stays the same, and so do the owners of an object and its full
name. So whatever was looked up by name before still means the same object afterwards.
-/

namespace UnrealPackage

theorem getElem?_of_isPrefix {α : Type} {xs ys : List α} (h : xs <+: ys) {i : Nat} {x : α}
    (hx : xs[i]? = some x) : ys[i]? = some x := by
  obtain ⟨more, rfl⟩ := h
  rw [List.getElem?_append_left (List.getElem?_eq_some_iff.1 hx).1, hx]

namespace Tables

/-- Each table is followed by more entries, if anything. -/
structure Grows (t t' : Tables) : Prop where
  package : t'.package = t.package
  names : t.names <+: t'.names
  imports : t.imports <+: t'.imports
  exports : t.exports <+: t'.exports

namespace Grows

variable {t t' t'' : Tables} {r : ObjectRef} {s : String}

theorem refl (t : Tables) : t.Grows t :=
  ⟨rfl, List.prefix_refl _, List.prefix_refl _, List.prefix_refl _⟩

theorem trans (h : t.Grows t') (h' : t'.Grows t'') : t.Grows t'' :=
  ⟨h'.package.trans h.package, h.names.trans h'.names, h.imports.trans h'.imports,
    h.exports.trans h'.exports⟩

theorem appendNames (t : Tables) (more : List NameEntry) :
    t.Grows { t with names := t.names ++ more } :=
  { refl t with names := List.prefix_append _ _ }

theorem appendImports (t : Tables) (more : List ImportEntry) :
    t.Grows { t with imports := t.imports ++ more } :=
  { refl t with imports := List.prefix_append _ _ }

/-- Names keep their index. -/
theorem name (h : t.Grows t') {index : NameIndex} (hs : t.name index = .ok s) :
    t'.name index = .ok s := by
  obtain ⟨hpos, e, hentry, hname⟩ := Tables.name_eq_ok_iff.1 hs
  exact Tables.name_eq_ok_iff.2 ⟨hpos, e, getElem?_of_isPrefix h.names hentry, hname⟩

/-- Objects keep the reference that leads to them. -/
theorem object (h : t.Grows t') {e : TableEntry} (he : t.object r = .ok (some e)) :
    t'.object r = .ok (some e) := by
  refine object_eq_some.2 ((object_eq_some.1 he).imp ?_ ?_)
  · rintro ⟨i, x, rfl, htarget, hx⟩
    exact ⟨i, x, rfl, htarget, getElem?_of_isPrefix h.exports hx⟩
  · rintro ⟨i, x, rfl, htarget, hx⟩
    exact ⟨i, x, rfl, htarget, getElem?_of_isPrefix h.imports hx⟩

theorem ownerPath (h : t.Grows t') {top : ObjectRef} {way : List TableEntry}
    (hway : t.OwnerPath top r way) : t'.OwnerPath top r way :=
  hway.mono fun _ _ _ => h.object

/-- Full names in a package stay what they are in tables that grow. -/
theorem innerFullName (h : t.Grows t') (hs : t.innerFullName r = .ok s) :
    t'.innerFullName r = .ok s := by
  by_cases hr : r = .none
  · rw [Tables.innerFullName, if_pos (ObjectRef.isNone_iff.2 hr)] at hs ⊢
    exact hs
  · obtain ⟨way, hway, -⟩ := (innerFullName_eq_ok hr).1 hs
    exact innerFullName_mono hr (fun _ _ => h.name) hway (h.ownerPath hway) hs

/-- Full names of imports stay what they are in tables that grow. -/
theorem importFullName (h : t.Grows t') {i : Nat} (hs : t.importFullName i = .ok s) :
    t'.importFullName i = .ok s := by
  obtain ⟨x, hx⟩ := exists_of_importFullName hs
  obtain ⟨_, -, hinner⟩ := except_bind_eq_ok.1 hs
  rw [Tables.importFullName, importAt, getElem?_of_isPrefix h.imports hx]
  exact h.innerFullName hinner

end Grows

end Tables

end UnrealPackage
