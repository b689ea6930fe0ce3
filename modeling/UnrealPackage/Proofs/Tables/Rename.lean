import UnrealPackage.Proofs.Tables.FullName
import UnrealPackage.Proofs.Tables.Known
/-!
# Renaming an import

`ImportPath.rename` is what a renaming does to tables that know the names it needs: packages are
added for the path of the new name, and the import is put under the last of them. Nothing else
changes (`ImportPath.renamed`): what the import does not own keeps its owners and its full name.

The packages of the path are looked up among the imports that there are, and the import itself may
be one of them (`Tables.OnPath`). If it is not, it bears the new name afterwards, and what was
rooted is rooted again. If it is, it has become an owner of its own, and has no full name any more.
-/

namespace UnrealPackage

namespace Tables

variable {t t' : Tables} {index i n : Nat} {name s : String}

/-- The first `n` parts of a dotted name, all of them in front of the last one, lead to an import
when packages are looked up for them. -/
def LeadsTo (t : Tables) (name : String) (n : Nat) (index : Nat) : Prop :=
  0 < n ∧ n < (segments name).length ∧
    Prod.snd <$> t.packageImports t.imports ((segments name).take n) = .ok (.ofImport index)

instance (t : Tables) (name : String) (n index : Nat) : Decidable (t.LeadsTo name n index) :=
  inferInstanceAs (Decidable (_ ∧ _ ∧ _))

/-- The import is one of the packages around the object of a dotted name. -/
def OnPath (t : Tables) (name : String) (index : Nat) : Prop :=
  ∃ n < (segments name).length, t.LeadsTo name n index

instance (t : Tables) (name : String) (index : Nat) : Decidable (t.OnPath name index) :=
  inferInstanceAs (Decidable (∃ n < (segments name).length, t.LeadsTo name n index))

theorem LeadsTo.onPath (h : t.LeadsTo name n index) : t.OnPath name index :=
  ⟨n, h.2.1, h⟩

/-- What can be relied on after a renaming, whatever the new name is. -/
structure Renamed (t : Tables) (index : Nat) (name : String) (t' : Tables) : Prop where
  package : t'.package = t.package
  names : t.names <+: t'.names
  exports : t'.exports = t.exports
  length : t.imports.length ≤ t'.imports.length
  /-- All other imports are where they were, and the same. -/
  others : ∀ i ≠ index, ∀ x, t.imports[i]? = some x → t'.imports[i]? = some x
  /-- The import keeps its class. -/
  itself : ∀ x, t.imports[index]? = some x → ∃ x', t'.imports[index]? = some x' ∧
    x'.classPackage = x.classPackage ∧ x'.className = x.className
  /-- What the import does not own keeps its owners and its full name. -/
  apart : ∀ i way, t.OwnerPath .none (.ofImport i) way → (∀ x, .imported index x ∉ way) →
    t'.OwnerPath .none (.ofImport i) way ∧ ∀ s, t.importFullName i = .ok s →
      t'.importFullName i = .ok s
  /-- An import that was added is a package on the path of the new name. -/
  added : ∀ i, t.imports.length ≤ i → i < t'.imports.length →
    { t with names := t'.names }.OnPath name i ∧
      ∃ s, t'.importClassFullName i = .ok s ∧ sameName s "Core.Package" = true

/-! ## Other imports -/

section Modify

variable {imports : List ImportEntry} {f : ImportEntry → ImportEntry} {r : ObjectRef}
  {e : TableEntry} {x : ImportEntry}

/-- Other objects are what they were when an import is edited. -/
theorem object_modify_of_ne (h : { t with imports := imports }.object r = .ok (some e))
    (hne : ∀ x, e ≠ .imported index x) :
    { t with imports := imports.modify index f }.object r = .ok (some e) := by
  refine object_eq_some.2 ((object_eq_some.1 h).imp_right ?_)
  rintro ⟨i, x, rfl, htarget, hx⟩
  have hi : index ≠ i := fun h => hne x (h ▸ rfl)
  exact ⟨i, x, rfl, htarget, (List.getElem?_modify_ne f imports hi).trans hx⟩

/-- An import that is edited is there, edited. -/
theorem object_modify_self
    (h : { t with imports := imports }.object r = .ok (some (.imported index x))) :
    { t with imports := imports.modify index f }.object r =
      .ok (some (.imported index (f x))) := by
  rcases object_eq_some.1 h with ⟨i, x', he, -, -⟩ | ⟨i, x', he, htarget, hx⟩
  · cases he
  · cases he
    refine object_eq_some.2 (.inr ⟨index, f x, rfl, htarget, ?_⟩)
    dsimp only at hx ⊢
    rw [List.getElem?_modify_eq, hx]
    rfl

end Modify

/-! ## The path of a name -/

/-- The indices of the names that are needed to put an import under the packages of a dotted
name. -/
structure ImportPath (t : Tables) (name : String) extends t.NamePath name where
  core : NameIndex
  package : NameIndex
  core_eq : t.nameIndex "Core" = .ok core
  package_eq : t.nameIndex "Package" = .ok package

/-- An import can be put under a dotted name if its parts are known. -/
theorem exists_importPath (hclass : ∀ n ∈ packageClassNames, t.Knows n)
    (hnames : ∀ n ∈ segments name, t.Knows n) : Nonempty (t.ImportPath name) := by
  obtain ⟨hcore, hpackage, -⟩ := List.forall_mem_cons.1 hclass |>.imp_right List.forall_mem_cons.1
  obtain ⟨core, hcore⟩ := hcore.exists_index
  obtain ⟨package, hpackage⟩ := hpackage.exists_index
  obtain ⟨parts⟩ := exists_namePath hnames
  exact ⟨⟨parts, core, package, hcore, hpackage⟩⟩

namespace ImportPath

/-- The imports with the first `n` packages of the path, and the reference to the last of them. -/
def nest (w : t.ImportPath name) (n : Nat) : List ImportEntry × ObjectRef :=
  nestImports (w.core, w.package) t.imports .none (w.path.take n)

/-- The imports with all packages of the path, and the reference to the last of them. -/
def nested (w : t.ImportPath name) : List ImportEntry × ObjectRef :=
  w.nest w.path.length

/-- The tables with the import at an index put under the packages of the path. -/
def rename (w : t.ImportPath name) (index : Nat) : Tables :=
  { t with imports := w.nested.1.modify index fun e =>
      { e with outer := w.nested.2, objectName := w.last } }

variable (w : t.ImportPath name) {r : ObjectRef} {e : TableEntry}

theorem packageImports_eq :
    t.packageImports t.imports (segments name).dropLast = .ok w.nested := by
  refine packageImports_eq_ok.2 ⟨_, _, _, w.core_eq, w.package_eq, w.path_eq, ?_⟩
  rw [nested, nest, List.take_length]

theorem packageImports_take (hn : n ≤ w.path.length) :
    t.packageImports t.imports ((segments name).take n) = .ok (w.nest n) :=
  packageImports_eq_ok.2 ⟨_, _, _, w.core_eq, w.package_eq, w.take_eq hn, rfl⟩

/-- The parts of the name that lead to an import, by their number. -/
theorem leadsTo_iff : t.LeadsTo name n i ↔
    0 < n ∧ n ≤ w.path.length ∧ (w.nest n).2 = .ofImport i := by
  have hlength := w.length_path
  constructor
  · rintro ⟨hpos, hn, hleads⟩
    rw [w.packageImports_take (by omega)] at hleads
    exact ⟨hpos, by omega, Except.ok.inj hleads⟩
  · rintro ⟨hpos, hn, hleads⟩
    refine ⟨hpos, by omega, ?_⟩
    rw [w.packageImports_take hn, ← hleads]
    rfl

/-- Some parts in front that lead to an import. -/
theorem leadsTo_of_front {front : List NameIndex} (hne : front ≠ []) (hfront : front <+: w.path)
    (hleads : (nestImports (w.core, w.package) t.imports .none front).2 = .ofImport i) :
    t.LeadsTo name front.length i := by
  refine w.leadsTo_iff.2 ⟨List.length_pos_iff.2 hne, hfront.length_le, ?_⟩
  rwa [nest, ← List.prefix_iff_eq_take.1 hfront]

/-- The rest of the path is looked up where its first `n` packages are. -/
theorem nested_eq (n : Nat) : w.nested =
    nestImports (w.core, w.package) (w.nest n).1 (w.nest n).2 (w.path.drop n) := by
  rw [nest, ← nestImports_append, List.take_append_drop, nested, nest, List.take_length]

/-- The imports of a longer path begin with those of a shorter one. -/
theorem exists_nested_append (n : Nat) : ∃ more, w.nested.1 = (w.nest n).1 ++ more := by
  rw [w.nested_eq n]
  exact exists_nestImports_append _ _ _ _

/-- The packages of the path lead up to nothing through imports on the path. -/
theorem exists_way (hlength : w.nested.1.length ≤ 0x80000000) (n : Nat) :
    ∃ way, { t with imports := (w.nest n).1 }.OwnerPath .none (w.nest n).2 way ∧
      way.map TableEntry.objectName = (w.path.take n).reverse ∧
      ∀ e ∈ way, ∃ i x, e = .imported i x ∧ t.OnPath name i := by
  obtain ⟨more, hmore⟩ := w.exists_nested_append n
  obtain ⟨way, hway, hnames, hfronts⟩ := nestImports_path t (w.core, w.package) t.imports
    .none (w.path.take n) (by
      rw [hmore, List.length_append] at hlength
      exact Nat.le_trans (Nat.le_add_right _ _) hlength)
  refine ⟨way, hway, hnames, fun e he => ?_⟩
  obtain ⟨front, i, x, hne, hfront, rfl, hleads⟩ := hfronts e he
  exact ⟨i, x, rfl, (w.leadsTo_of_front hne (hfront.trans (List.take_prefix _ _)) hleads).onPath⟩

/-- The last package of the path leads up to every other one. -/
theorem exists_way_from (hlength : w.nested.1.length ≤ 0x80000000) (n : Nat) :
    ∃ way, { t with imports := w.nested.1 }.OwnerPath (w.nest n).2 w.nested.2 way ∧
      way.map TableEntry.objectName = (w.path.drop n).reverse := by
  obtain ⟨way, hway, hnames, -⟩ := nestImports_path t (w.core, w.package) (w.nest n).1
    (w.nest n).2 (w.path.drop n) (by rwa [← w.nested_eq n])
  rw [← w.nested_eq n] at hway
  exact ⟨way, hway, hnames⟩

/-- Where an import that was added stands on the path. -/
theorem exists_leadsTo_of_added (hle : t.imports.length ≤ i) (hi : i < w.nested.1.length) :
    ∃ n, t.LeadsTo name n i := by
  rw [nested, nest, List.take_length] at hi
  obtain ⟨front, hne, hfront, hleads⟩ := exists_front_of_added hle hi
  exact ⟨_, w.leadsTo_of_front hne hfront hleads⟩

/-- The last of the first `n` packages is where it is said to be. -/
theorem getElem?_nest (hpos : 0 < n) (hn : n ≤ w.path.length) : ∃ i x,
    (w.nest n).2 = .ofImport i ∧ (w.nest n).1[i]? = some x ∧ x.classPackage = w.core ∧
      x.className = w.package := by
  obtain ⟨front, part, hfront⟩ : ∃ front part, w.path.take n = front ++ [part] := by
    have hne : w.path.take n ≠ [] := by
      rw [← List.length_pos_iff, List.length_take]
      omega
    exact ⟨_, _, (List.dropLast_concat_getLast hne).symm⟩
  obtain ⟨i, houter, hitem⟩ := getElem?_nestImports_concat (w.core, w.package) t.imports
    .none front part
  rw [← hfront] at houter hitem
  exact ⟨i, _, houter, hitem, rfl, rfl⟩

/-- What the path leads to is a package. -/
theorem getElem?_of_leadsTo (hlength : w.nested.1.length ≤ 0x80000000) (hi : i < 0x80000000)
    (h : t.LeadsTo name n i) : ∃ x, w.nested.1[i]? = some x ∧ x.classPackage = w.core ∧
      x.className = w.package := by
  obtain ⟨hpos, hn, hleads⟩ := w.leadsTo_iff.1 h
  obtain ⟨j, x, houter, hitem, hclass⟩ := w.getElem?_nest hpos hn
  obtain ⟨more, hmore⟩ := w.exists_nested_append n
  rw [houter] at hleads
  have hj := (List.getElem?_eq_some_iff.1 hitem).1
  rw [hmore, List.length_append] at hlength
  obtain rfl := ObjectRef.ofImport_inj (by omega) hi hleads
  rw [hmore, List.getElem?_append_left hj, hitem]
  exact ⟨_, rfl, hclass⟩

/-! ## What the import does not own -/

@[simp] theorem length_rename : (w.rename index).imports.length = w.nested.1.length :=
  List.length_modify ..

theorem rename_others {x : ImportEntry} (hx : w.nested.1[i]? = some x) (hi : i ≠ index) :
    (w.rename index).imports[i]? = some x :=
  (List.getElem?_modify_ne _ _ hi.symm).trans hx

/-- Imports keep their places when packages are added. -/
theorem getElem?_nested {x : ImportEntry} (hx : t.imports[i]? = some x) :
    w.nested.1[i]? = some x := by
  obtain ⟨more, hmore⟩ := w.exists_nested_append 0
  have hlt := (List.getElem?_eq_some_iff.1 hx).1
  rw [hmore]
  exact (List.getElem?_append_left hlt).trans hx

/-- The import is put under the last package of the path. -/
theorem rename_itself {x : ImportEntry} (hx : t.imports[index]? = some x) :
    (w.rename index).imports[index]? =
      some { x with outer := w.nested.2, objectName := w.last } := by
  refine (List.getElem?_modify_eq ..).trans ?_
  rw [w.getElem?_nested hx]
  rfl

/-- An object that is there when the first packages are is the same after the renaming, if it is
another one than the import. -/
theorem object_rename_of_ne (h : { t with imports := (w.nest n).1 }.object r = .ok (some e))
    (hne : ∀ x, e ≠ .imported index x) : (w.rename index).object r = .ok (some e) := by
  obtain ⟨more, hmore⟩ := w.exists_nested_append n
  refine object_modify_of_ne ?_ hne
  rw [hmore]
  exact (Grows.appendImports { t with imports := _ } more).object h

/-- The import itself has the last package of the path as its owner. -/
theorem object_rename_self {x : ImportEntry}
    (h : { t with imports := (w.nest n).1 }.object r = .ok (some (.imported index x))) :
    (w.rename index).object r =
      .ok (some (.imported index { x with outer := w.nested.2, objectName := w.last })) := by
  obtain ⟨more, hmore⟩ := w.exists_nested_append n
  refine object_modify_self ?_
  rw [hmore]
  exact (Grows.appendImports { t with imports := _ } more).object h

/-- A way that does not pass the import stays a way. -/
theorem rename_apart {top : ObjectRef} {way : List TableEntry}
    (h : { t with imports := (w.nest n).1 }.OwnerPath top r way)
    (hapart : ∀ x, .imported index x ∉ way) : (w.rename index).OwnerPath top r way :=
  h.mono fun _ _ he hobject => w.object_rename_of_ne hobject fun x hx => hapart x (hx ▸ he)

/-- An import that was added is a package. -/
theorem importClassFullName_rename (hn : t.names.length < 0x80000000)
    (hlength : w.nested.1.length ≤ 0x80000000) (hi : i < 0x80000000) (hne : i ≠ index)
    (h : t.LeadsTo name n i) :
    ∃ s, (w.rename index).importClassFullName i = .ok s ∧ sameName s "Core.Package" = true := by
  obtain ⟨x, hx, hcore, hpackage⟩ := w.getElem?_of_leadsTo hlength hi h
  exact importClassFullName_package (t := w.rename index) hn (w.rename_others hx hne)
    (hcore ▸ w.core_eq) (hpackage ▸ w.package_eq)

/-- Names and packages are added, and only the import that is renamed changes. -/
theorem renamed {t : Tables} {more : List NameEntry}
    (w : { t with names := t.names ++ more }.ImportPath name)
    (hn : (t.names ++ more).length < 0x80000000) (hlength : w.nested.1.length ≤ 0x80000000)
    (hindex : index < t.imports.length) : t.Renamed index name (w.rename index) where
  package := rfl
  names := List.prefix_append _ _
  exports := rfl
  length := by
    obtain ⟨added, hadded⟩ := w.exists_nested_append 0
    rw [length_rename, hadded, List.length_append]
    exact Nat.le_add_right _ _
  others i hi x hx := w.rename_others (w.getElem?_nested hx) hi
  itself x hx := ⟨_, w.rename_itself hx, rfl, rfl⟩
  apart i way hway hapart := by
    have hway' : (w.rename index).OwnerPath .none (.ofImport i) way :=
      w.rename_apart (n := 0) (hway.mono fun _ _ _ he => he) hapart
    refine ⟨hway', fun s hs => ?_⟩
    obtain ⟨x, hx⟩ := exists_of_importFullName hs
    have hx₀ := w.getElem?_nested hx
    have hlt := (List.getElem?_eq_some_iff.1 hx₀).1
    obtain ⟨rest, rfl, -⟩ := hway.exists_rest (ObjectRef.ofImport_ne_none (by omega))
      (object_ofImport (by omega) hx)
    have hi : i ≠ index := fun h => hapart x (h ▸ List.mem_cons_self)
    exact importFullName_mono (by omega) (w.rename_others hx₀ hi)
      (fun _ _ => (Grows.appendNames t more).name) hway hway' hs
  added i hle hi := by
    rw [length_rename] at hi
    obtain ⟨n, hleads⟩ := w.exists_leadsTo_of_added hle hi
    exact ⟨hleads.onPath, w.importClassFullName_rename hn hlength (by omega) (by omega) hleads⟩

/-! ## The new name -/

/-- The packages of the path are rooted if the import is none of them. -/
theorem exists_rename_way (hlength : w.nested.1.length ≤ 0x80000000)
    (hoff : ¬t.OnPath name index) (n : Nat) :
    ∃ way, (w.rename index).OwnerPath .none (w.nest n).2 way ∧
      way.map TableEntry.objectName = (w.path.take n).reverse := by
  obtain ⟨way, hway, hnames, hpackages⟩ := w.exists_way hlength n
  refine ⟨way, w.rename_apart hway fun x hx => ?_, hnames⟩
  obtain ⟨i, x', he, hi⟩ := hpackages _ hx
  cases he
  exact hoff hi

/-- The import has its new name. -/
theorem importFullName_rename (hn : t.names.length < 0x80000000)
    (hlength : w.nested.1.length ≤ 0x80000000) (hoff : ¬t.OnPath name index)
    (hindex : index < t.imports.length) :
    ∃ s, (w.rename index).importFullName index = .ok s ∧ sameName s name = true := by
  obtain ⟨way, hway, hnames⟩ := w.exists_rename_way hlength hoff w.path.length
  have hx := List.getElem?_eq_getElem hindex
  have hlt := (List.getElem?_eq_some_iff.1 (w.getElem?_nested hx)).1
  have hself := w.object_rename_self (n := 0) (object_ofImport (by omega) hx)
  obtain ⟨s, hs, hsame⟩ := importFullName_of_path (t := w.rename index) hn (by omega)
    (w.rename_itself hx) w.segments_eq (.owned hself hway) (by
      rw [List.map_cons, hnames, List.take_length, List.reverse_concat]
      rfl)
  rw [dotted_segments] at hsame
  exact ⟨s, hs, hsame⟩

/-- A package on the path has the parts of the new name up to it as its full name. -/
theorem importFullName_rename_of_leadsTo (hn : t.names.length < 0x80000000)
    (hlength : w.nested.1.length ≤ 0x80000000) (hoff : ¬t.OnPath name index) (hi : i < 0x80000000)
    (h : t.LeadsTo name n i) : ∃ s, (w.rename index).importFullName i = .ok s ∧
      sameName s (dotted ((segments name).take n)) = true := by
  obtain ⟨x, hx, -⟩ := w.getElem?_of_leadsTo hlength hi h
  have hne : i ≠ index := fun hi => hoff (hi ▸ h.onPath)
  obtain ⟨-, hle, hleads⟩ := w.leadsTo_iff.1 h
  obtain ⟨way, hway, hnames⟩ := w.exists_rename_way hlength hoff n
  rw [hleads] at hway
  exact importFullName_of_path (t := w.rename index) hn hi (w.rename_others hx hne)
    (w.take_eq hle) hway hnames

/-- What was rooted is rooted, also below the import. -/
theorem rooted_rename (hlength : w.nested.1.length ≤ 0x80000000) (hoff : ¬t.OnPath name index)
    (h : t.Rooted r) : (w.rename index).Rooted r := by
  obtain ⟨way, h⟩ := h
  induction h with
  | here => exact ⟨[], .here⟩
  | @owned r e way he hway ih =>
    by_cases hself : ∃ x, e = .imported index x
    · obtain ⟨x, rfl⟩ := hself
      obtain ⟨path, hpath, -⟩ := w.exists_rename_way hlength hoff w.path.length
      exact ⟨_, .owned (w.object_rename_self (n := 0) he) hpath⟩
    · obtain ⟨path, hpath⟩ := ih
      exact ⟨_, .owned (w.object_rename_of_ne (n := 0) he fun x hx => hself ⟨x, hx⟩) hpath⟩

/-- The owners of an object lead up to the import through packages with names of the path. -/
def LiesBelow (w : t.ImportPath name) (index : Nat) (r : ObjectRef) : Prop :=
  ∃ way, { t with imports := w.nested.1 }.OwnerPath (.ofImport index) r way ∧
    ∀ e ∈ way, e.objectName ∈ w.path

/-- The last package lies below every package on the path. -/
theorem liesBelow_nested (hlength : w.nested.1.length ≤ 0x80000000) (hon : t.OnPath name index) :
    w.LiesBelow index w.nested.2 := by
  obtain ⟨n, -, hleads⟩ := hon
  obtain ⟨way, hway, hnames⟩ := w.exists_way_from hlength n
  rw [(w.leadsTo_iff.1 hleads).2.2] at hway
  refine ⟨way, hway, fun e he => ?_⟩
  have hmem := List.mem_map_of_mem (f := TableEntry.objectName) he
  rw [hnames, List.mem_reverse] at hmem
  exact List.mem_of_mem_drop hmem

/-- Where the import is a package on the path, its owner lies below it, and so does the owner of
whatever lies below it. -/
theorem ring_rename (hn : t.names.length < 0x80000000) (hlength : w.nested.1.length ≤ 0x80000000)
    (hon : t.OnPath name index) (hindex : index < t.imports.length) (hr : w.LiesBelow index r) :
    ∃ e, (w.rename index).object r = .ok (some e) ∧
      t.name e.objectName = .ok (t.spelling e.objectName) ∧ w.LiesBelow index e.outer := by
  obtain ⟨hspelled, -⟩ := names_of_mapM_nameIndex hn w.segments_eq
  obtain ⟨way, hway, hnames⟩ := hr
  cases hway with
  | here =>
    have hx := List.getElem?_eq_getElem hindex
    have hlt := (List.getElem?_eq_some_iff.1 (w.getElem?_nested hx)).1
    refine ⟨_, w.object_rename_self (n := 0) (object_ofImport (by omega) hx), ?_,
      w.liesBelow_nested hlength hon⟩
    exact hspelled _ (List.mem_append_right _ List.mem_cons_self)
  | @owned _ e way he hway =>
    obtain ⟨hname, hnames⟩ := List.forall_mem_cons.1 hnames
    by_cases hself : ∃ x, e = .imported index x
    · obtain ⟨x, rfl⟩ := hself
      refine ⟨_, w.object_rename_self (n := w.path.length) he, ?_, w.liesBelow_nested hlength hon⟩
      exact hspelled _ (List.mem_append_right _ List.mem_cons_self)
    · refine ⟨e, w.object_rename_of_ne (n := w.path.length) he fun x hx => hself ⟨x, hx⟩, ?_,
        way, hway, hnames⟩
      exact hspelled _ (List.mem_append_left _ hname)

/-- Then the import has no root, and no full name. -/
theorem loops_of_onPath (hn : t.names.length < 0x80000000)
    (hlength : w.nested.1.length ≤ 0x80000000) (hon : t.OnPath name index)
    (hindex : index < t.imports.length) : ¬(w.rename index).Rooted (.ofImport index) ∧
      (w.rename index).importFullName index = .error (.outerChainLoops (-index - 1)) := by
  have hring := fun r => w.ring_rename (r := r) hn hlength hon hindex
  have hself : w.LiesBelow index (.ofImport index) := ⟨[], .here, nofun⟩
  have hx := List.getElem?_eq_getElem hindex
  have hlt := (List.getElem?_eq_some_iff.1 (w.getElem?_nested hx)).1
  refine ⟨not_rooted_of_ring (fun r hr => ?_) hself, ?_⟩
  · obtain ⟨e, he, -, howner⟩ := hring r hr
    exact ⟨e, he, howner⟩
  · have hloop := outerChain_of_ring (t := w.rename index) hring hself (.ofImport index)
    have hnone : ¬(ObjectRef.ofImport index).isNone = true := fun h =>
      ObjectRef.ofImport_ne_none (by omega) (ObjectRef.isNone_iff.1 h)
    rw [importFullName, importAt, w.rename_itself hx, innerFullName, if_neg hnone, hloop,
      ObjectRef.toInt_ofImport (by omega)]
    rfl

end ImportPath

end Tables

end UnrealPackage
