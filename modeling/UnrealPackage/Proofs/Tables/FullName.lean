import Mathlib.Data.List.Induction
import UnrealPackage.Package.Imports
import UnrealPackage.Proofs.Tables.Growth
import UnrealPackage.Proofs.Tables.Names
import UnrealPackage.Proofs.Text.Dotted
/-!
# Full names of imports

The packages that a path of names asks for are owned one by the other (`nestImports_path`), and
those that were added for it lie on it (`exists_front_of_added`). An import below them has the parts
of the path and its own name as its full name (`importFullName_of_path`).

Names are compared without regard to case. The name that is found is spelled as the name table has
it, and is the same name as the one that was asked for.
-/

namespace UnrealPackage

/-! ## Names of the table -/

namespace Tables

variable {t : Tables}

/-- A name that has an index has a spelling. -/
theorem exists_spells {name : String} {index : NameIndex} (hn : t.names.length < 0x80000000)
    (h : t.nameIndex name = .ok index) : ∃ spelled, t.Spells name spelled := by
  rw [nameIndex] at h
  split at h
  · next i hi =>
    have hlt := (List.findIdx?_eq_some_iff_getElem.1 hi).1
    exact ⟨_, i, hi, by omega, by rw [List.getElem?_eq_getElem hlt]; rfl⟩
  · cases h

/-- The index of a name leads to a spelling of it. -/
theorem name_of_nameIndex {name : String} {index : NameIndex} (hn : t.names.length < 0x80000000)
    (h : t.nameIndex name = .ok index) :
    t.name index = .ok (t.spelling index) ∧ foldCase (t.spelling index) = foldCase name := by
  obtain ⟨spelled, hspells⟩ := exists_spells hn h
  obtain ⟨index', hindex, hname, hsame⟩ := hspells.exists_index
  cases h.symm.trans hindex
  rw [spelling, hname]
  exact ⟨rfl, sameName_iff.1 hsame⟩

/-- Names that are each found lead to spellings of them. -/
theorem names_of_mapM_nameIndex (hn : t.names.length < 0x80000000) {names : List String}
    {indices : List NameIndex} (h : names.mapM t.nameIndex = .ok indices) :
    (∀ index ∈ indices, t.name index = .ok (t.spelling index)) ∧
      (indices.map t.spelling).map foldCase = names.map foldCase := by
  induction names generalizing indices with
  | nil =>
    cases h
    exact ⟨nofun, rfl⟩
  | cons name names ih =>
    rw [List.mapM_cons] at h
    obtain ⟨index, hindex, h⟩ := except_bind_eq_ok.1 h
    obtain ⟨others, hothers, h⟩ := except_bind_eq_ok.1 h
    cases h
    obtain ⟨hname, hfold⟩ := name_of_nameIndex hn hindex
    obtain ⟨hnames, hfolds⟩ := ih hothers
    exact ⟨List.forall_mem_cons.2 ⟨hname, hnames⟩, congrArg₂ List.cons hfold hfolds⟩

end Tables

/-! ## Imports that are added -/

/-- An item that was found or added is where it is said to be. -/
theorem findOrAdd_spec {α : Type} [BEq α] [LawfulBEq α] (items : List α) (item : α) :
    ∃ more, (findOrAdd items item).1 = items ++ more ∧
      (findOrAdd items item).1[(findOrAdd items item).2]? = some item := by
  rw [findOrAdd]
  cases hfind : items.findIdx? (· == item) with
  | none => exact ⟨[item], rfl, List.getElem?_concat_length⟩
  | some i =>
    obtain ⟨hi, hitem, -⟩ := List.findIdx?_eq_some_iff_getElem.1 hfind
    refine ⟨[], (List.append_nil _).symm, ?_⟩
    rw [List.getElem?_eq_getElem hi, eq_of_beq hitem]

/-- At most the item itself is added, at the end. -/
theorem eq_of_findOrAdd_added {α : Type} [BEq α] {items : List α} {item : α} {i : Nat}
    (hle : items.length ≤ i) (hi : i < (findOrAdd items item).1.length) :
    (findOrAdd items item).2 = i := by
  rw [findOrAdd] at hi ⊢
  split at hi
  · exact absurd hi (Nat.not_lt.2 hle)
  · rw [List.length_append, List.length_singleton] at hi
    exact Nat.le_antisymm hle (Nat.le_of_lt_succ hi)

namespace Tables

variable {t : Tables} {imports imports' : List ImportEntry} {outer outer' : ObjectRef}
  {package : NameIndex × NameIndex} {path front back : List NameIndex}

/-- Packages of a path are added for its front and then for the rest. -/
theorem nestImports_append : nestImports package imports outer (front ++ back) =
    nestImports package (nestImports package imports outer front).1
      (nestImports package imports outer front).2 back := by
  induction front generalizing imports outer with
  | nil => rfl
  | cons part front ih => exact ih

/-- The last part of a path is found or added where the parts before it are there. -/
theorem nestImports_concat (part : NameIndex) :
    nestImports package imports outer (front ++ [part]) =
      let nested := nestImports package imports outer front
      let found := findOrAdd nested.1 ⟨package.1, package.2, nested.2, part⟩
      (found.1, .ofImport found.2) :=
  nestImports_append

/-- Packages of a path are added behind the imports there are. -/
theorem exists_nestImports_append (package : NameIndex × NameIndex) (imports : List ImportEntry)
    (outer : ObjectRef) (path : List NameIndex) :
    ∃ more, (nestImports package imports outer path).1 = imports ++ more := by
  induction path using List.reverseRecOn with
  | nil => exact ⟨[], (List.append_nil _).symm⟩
  | append_singleton front part ih =>
    obtain ⟨more, hmore⟩ := ih
    obtain ⟨added, hadded, -⟩ := findOrAdd_spec (nestImports package imports outer front).1
      ⟨package.1, package.2, (nestImports package imports outer front).2, part⟩
    refine ⟨more ++ added, ?_⟩
    rw [nestImports_concat]
    dsimp only
    rw [hadded, hmore, List.append_assoc]

/-- What stands at the end of a path: a package whose name is the last part and whose owner is the
package in front of it. -/
theorem getElem?_nestImports_concat (package : NameIndex × NameIndex) (imports : List ImportEntry)
    (outer : ObjectRef) (front : List NameIndex) (part : NameIndex) :
    ∃ i, (nestImports package imports outer (front ++ [part])).2 = .ofImport i ∧
      (nestImports package imports outer (front ++ [part])).1[i]? =
        some ⟨package.1, package.2, (nestImports package imports outer front).2, part⟩ := by
  rw [nestImports_concat]
  obtain ⟨-, -, hitem⟩ := findOrAdd_spec (nestImports package imports outer front).1
    ⟨package.1, package.2, (nestImports package imports outer front).2, part⟩
  exact ⟨_, rfl, hitem⟩

/-- The package imports of a path are owned one by the other, and each is where the path leads up to
some part of it. -/
theorem nestImports_path (t : Tables) (package : NameIndex × NameIndex)
    (imports : List ImportEntry) (outer : ObjectRef) (path : List NameIndex)
    (hlength : (nestImports package imports outer path).1.length ≤ 0x80000000) :
    ∃ way, { t with imports := (nestImports package imports outer path).1 }.OwnerPath outer
        (nestImports package imports outer path).2 way ∧
      way.map TableEntry.objectName = path.reverse ∧
      ∀ e ∈ way, ∃ front i x, front ≠ [] ∧ front <+: path ∧ e = .imported i x ∧
        (nestImports package imports outer front).2 = .ofImport i := by
  induction path using List.reverseRecOn with
  | nil => exact ⟨[], .here, rfl, nofun⟩
  | append_singleton front part ih =>
    obtain ⟨more, hmore⟩ := exists_nestImports_append package
      (nestImports package imports outer front).1 (nestImports package imports outer front).2 [part]
    rw [← nestImports_append] at hmore
    obtain ⟨way, hway, hnames, hfronts⟩ := ih (by
      rw [hmore, List.length_append] at hlength
      omega)
    obtain ⟨i, houter, hitem⟩ := getElem?_nestImports_concat package imports outer front part
    have hi := (List.getElem?_eq_some_iff.1 hitem).1
    refine ⟨.imported i ⟨package.1, package.2, (nestImports package imports outer front).2, part⟩ ::
      way, ?_, ?_, List.forall_mem_cons.2 ⟨?_, fun e he => ?_⟩⟩
    · rw [houter]
      refine .owned (object_ofImport (by omega) hitem) ?_
      rw [hmore]
      exact (Grows.appendImports { t with imports := _ } more).ownerPath hway
    · rw [List.map_cons, hnames, List.reverse_concat]
      rfl
    · exact ⟨front ++ [part], i, _, by simp, List.prefix_refl _, rfl, houter⟩
    · obtain ⟨front', i, x, hne, hfront, rfl, houter⟩ := hfronts e he
      exact ⟨front', i, x, hne, hfront.trans (List.prefix_append _ _), rfl, houter⟩

/-- An import that was added for a path is where some part of it leads. -/
theorem exists_front_of_added {i : Nat} (hle : imports.length ≤ i)
    (hi : i < (nestImports package imports outer path).1.length) :
    ∃ front, front ≠ [] ∧ front <+: path ∧
      (nestImports package imports outer front).2 = .ofImport i := by
  induction path using List.reverseRecOn with
  | nil => exact absurd hi (Nat.not_lt.2 hle)
  | append_singleton front part ih =>
    by_cases hfront : i < (nestImports package imports outer front).1.length
    · obtain ⟨front', hne, hprefix, houter⟩ := ih hfront
      exact ⟨front', hne, hprefix.trans (List.prefix_append _ _), houter⟩
    · refine ⟨front ++ [part], by simp, List.prefix_refl _, ?_⟩
      rw [nestImports_concat] at hi ⊢
      exact congrArg ObjectRef.ofImport (eq_of_findOrAdd_added (Nat.not_lt.1 hfront) hi)

/-- The packages that a path of names asks for. -/
theorem packageImports_eq_ok {names : List String} {nested : List ImportEntry × ObjectRef} :
    t.packageImports imports names = .ok nested ↔
      ∃ core package indices, t.nameIndex "Core" = .ok core ∧ t.nameIndex "Package" = .ok package ∧
        names.mapM t.nameIndex = .ok indices ∧
        nested = nestImports (core, package) imports .none indices := by
  constructor
  · intro h
    obtain ⟨core, hcore, h⟩ := except_bind_eq_ok.1 h
    obtain ⟨package, hpackage, h⟩ := except_bind_eq_ok.1 h
    obtain ⟨indices, hindices, h⟩ := except_bind_eq_ok.1 h
    exact ⟨core, package, indices, hcore, hpackage, hindices, (Except.ok.inj h).symm⟩
  · rintro ⟨core, package, indices, hcore, hpackage, hindices, rfl⟩
    exact except_bind_eq_ok.2 ⟨core, hcore, except_bind_eq_ok.2 ⟨package, hpackage,
      except_bind_eq_ok.2 ⟨indices, hindices, rfl⟩⟩⟩

/-- An object whose owners have the names that were found for some parts has these parts as its full
name. -/
theorem innerFullName_of_path {r : ObjectRef} {parts : List String} {indices : List NameIndex}
    {way : List TableEntry} (hn : t.names.length < 0x80000000) (hr : r ≠ .none)
    (hindices : parts.mapM t.nameIndex = .ok indices) (hway : t.OwnerPath .none r way)
    (hnames : way.map TableEntry.objectName = indices.reverse) :
    ∃ s, t.innerFullName r = .ok s ∧ sameName s (dotted parts) = true := by
  obtain ⟨hfound, hfold⟩ := names_of_mapM_nameIndex hn hindices
  have hspelled : t.pathNames way = indices.map t.spelling := by
    have hmap := congrArg (List.map t.spelling) hnames
    rw [List.map_map, List.map_reverse] at hmap
    exact List.reverse_eq_iff.2 hmap
  refine ⟨_, (innerFullName_eq_ok hr).2 ⟨way, hway, fun e he => ?_, rfl⟩, ?_⟩
  · refine hfound _ (List.mem_reverse.1 ?_)
    rw [← hnames]
    exact List.mem_map_of_mem he
  · rw [sameName_iff, hspelled, foldCase_dotted, hfold, ← foldCase_dotted]

/-- An import bears the names of its owners and its own, joined with dots. -/
theorem importFullName_of_path {i : Nat} {x : ImportEntry} {parts : List String}
    {indices : List NameIndex} {way : List TableEntry} (hn : t.names.length < 0x80000000)
    (hi : i < 0x80000000) (hx : t.imports[i]? = some x)
    (hindices : parts.mapM t.nameIndex = .ok indices)
    (hway : t.OwnerPath .none (.ofImport i) way)
    (hnames : way.map TableEntry.objectName = indices.reverse) :
    ∃ s, t.importFullName i = .ok s ∧ sameName s (dotted parts) = true := by
  rw [importFullName, importAt, hx]
  exact innerFullName_of_path hn (ObjectRef.ofImport_ne_none hi) hindices hway hnames

/-- An import whose class has the names that were found for two others has these as its class. -/
theorem importClassFullName_of_nameIndex {i : Nat} {x : ImportEntry} {package name : String}
    (hn : t.names.length < 0x80000000) (hx : t.imports[i]? = some x)
    (hpackage : t.nameIndex package = .ok x.classPackage)
    (hname : t.nameIndex name = .ok x.className) :
    ∃ s, t.importClassFullName i = .ok s ∧ sameName s (dotted [package, name]) = true := by
  obtain ⟨hpackage, hfold⟩ := name_of_nameIndex hn hpackage
  obtain ⟨hname, hfold'⟩ := name_of_nameIndex hn hname
  refine ⟨dotted [t.spelling x.classPackage, t.spelling x.className], ?_, ?_⟩
  · rw [importClassFullName, importAt, hx]
    exact except_bind_eq_ok.2 ⟨x, rfl, except_bind_eq_ok.2 ⟨_, hpackage,
      except_bind_eq_ok.2 ⟨_, hname, rfl⟩⟩⟩
  · rw [sameName_iff, foldCase_dotted, foldCase_dotted, List.map_cons, List.map_cons, hfold, hfold']
    rfl

/-- An import of a package is recognised by the names of its class. -/
theorem importClassFullName_package {i : Nat} {x : ImportEntry} (hn : t.names.length < 0x80000000)
    (hx : t.imports[i]? = some x) (hcore : t.nameIndex "Core" = .ok x.classPackage)
    (hpackage : t.nameIndex "Package" = .ok x.className) :
    ∃ s, t.importClassFullName i = .ok s ∧ sameName s "Core.Package" = true := by
  have hname : dotted ["Core", "Package"] = "Core.Package" := by decide +kernel
  rw [← hname]
  exact importClassFullName_of_nameIndex hn hx hcore hpackage

end Tables

end UnrealPackage
