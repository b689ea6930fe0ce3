import UnrealPackage.Proofs.Package.ExportPath
import UnrealPackage.Proofs.Package.Rename
import UnrealPackage.Proofs.Property.RoundTrip
/-!
# Adding an export to a package

`addExport_exact` says what it does to a package to add an export by a dotted name. The steps before
succeed, within the limits of the format, and leave references for its classes. If its place is free
then, the export is there afterwards with all that was asked for, under packages of which those that
were missing have been added with an empty property list each; whatever there was before is left as
it is. `addExport_exact_needs_limits` shows what becomes of it otherwise.

The export may only be found to be there already if all its packages were, because a package that
was just added owns nothing yet (`Tables.NamePath.find?_packages_eq_none`).
-/

namespace UnrealPackage

variable {p : Package} {stored : List (List UInt8)} {r : ExportRequest}
  {type super packageType : ObjectRef} {emptyList : NameIndex}

/-- If nothing has its place, an export is stored with its packages. -/
theorem Change.insertExport_eq (w : p.tables.NamePath r.name)
    (hnone : p.tables.nameIndex noneName = .ok emptyList)
    (hfree : (w.packages packageType (Encode.compact emptyList)).1.find?
      ⟨type, (w.packages packageType (Encode.compact emptyList)).2, w.last⟩ = none) :
    insertExport r type super packageType p =
      (do
        let d := w.added type super packageType (Encode.compact emptyList)
        relocate { p.tables with exports := d.exports } d.payloads
        pure (d.exports.length - 1)) p := by
  rw [insertExport, bind_look, hnone, bind_ok (lift_ok rfl),
    w.addPackages_eq, bind_ok (lift_ok rfl)]
  dsimp only
  rw [w.last_eq, bind_ok (lift_ok rfl), hfree]
  rfl

namespace Package

/-- The export is a package of this name, and its payload is an empty property list. -/
def EmptyPackage (p : Package) (name : String) (i : Nat) : Prop :=
  ∃ e emptyList, p.tables.exports[i]? = some e ∧ p.tables.Means "Core.Package" e.type ∧
    p.tables.HasName (dotted [p.tables.package, name]) i ∧
    p.tables.nameIndex noneName = .ok emptyList ∧
    p.exportData i = .ok (Encode.compact emptyList) ∧
    ∀ schema cs scope rest,
      readProperties ⟨p.tables, schema, cs⟩ scope (Encode.compact emptyList ++ rest) =
        .ok ([], rest)

/-- What can be relied on when an export was added to a package and has got an index. `t` are the
tables that it was added to: those of the package, with the names and classes that it needs. -/
structure Exported (p : Package) (t : Tables) (packageType : ObjectRef) (r : ExportRequest)
    (index : Nat) (p' : Package) : Prop where
  intact : ∃ stored, p'.Intact stored
  grows : p.tables.Grows p'.tables
  /-- The payloads that there were are what they were. -/
  kept : ∀ i < p.tables.exports.length, p'.exportData i = p.exportData i
  new : p.tables.exports.length ≤ index
  name : p'.tables.HasName (dotted [p.tables.package, r.name]) index
  entry : ∃ e, p'.tables.exports[index]? = some e ∧ e.flags = r.flags ∧
    p'.tables.Means r.type e.type ∧ p'.tables.Means r.super e.super
  data : p'.exportData index = .ok r.data
  /-- Each package on the way to the name that was missing has been added. -/
  packages : ∀ n, 0 < n → n < (segments r.name).length →
    t.packageExport? packageType ((segments r.name).take n) = none →
    ∃ i, p.tables.exports.length ≤ i ∧ p'.EmptyPackage (dotted ((segments r.name).take n)) i

/-- `k` packages and an export under them were stored behind the exports of a package. -/
structure Inserted (p : Package) (stored : List (List UInt8)) (w : p.tables.NamePath r.name)
    (type super packageType : ObjectRef) (emptyList : NameIndex) (k : Nat) (p' : Package) :
    Prop where
  intact : p'.Intact (stored ++ (List.replicate k (Encode.compact emptyList) ++ [r.data]))
  count : (w.packages packageType (Encode.compact emptyList)).1.exports.length =
    p.tables.exports.length + k
  tables : p'.tables = { p.tables with exports := p'.tables.exports }
  isPrefix : p.tables.exports <+: p'.tables.exports
  same : ∀ {α : Type} {f : ExportEntry → α},
    (∀ e : ExportEntry, ∀ offset size, f { e with offset, size } = f e) →
      p'.tables.exports.map f =
        (w.added type super packageType (Encode.compact emptyList)).exports.map f

/-- An export is stored with its packages if nothing has its place. -/
theorem Ready.exists_inserted (h : p.Ready stored) (super : ObjectRef)
    (w : p.tables.NamePath r.name) (hnone : p.tables.nameIndex noneName = .ok emptyList)
    (hfree : (w.packages packageType (Encode.compact emptyList)).1.find?
      ⟨type, (w.packages packageType (Encode.compact emptyList)).2, w.last⟩ = none)
    (hdata : r.data.length < 0x80000000)
    (hsize : (Change.insertExport r type super packageType p).2.image.length < 0x100000000) :
    ∃ k p', Change.insertExport r type super packageType p =
        (.ok (p.tables.exports.length + k), p') ∧
      p.Inserted stored w type super packageType emptyList k p' := by
  obtain ⟨k, hk, hpushed⟩ := w.exists_pushed type super packageType (Encode.compact emptyList)
  rw [Change.insertExport_eq w hnone hfree] at hsize ⊢
  rw [Change.after_bind_pure] at hsize
  obtain ⟨position, p', hrun, htables, hintact⟩ := h.relocateDraft hpushed hdata hsize
  have hcount : (w.added type super packageType (Encode.compact emptyList)).exports.length - 1 =
      p.tables.exports.length + k := by
    rw [hpushed.length, List.length_append, List.length_replicate]
    rfl
  refine ⟨k, p', ?_, hintact, hk, ?_, ?_, fun hf => ?_⟩
  · rw [Change.bind_ok hrun, hcount]
    rfl
  · rw [htables]
    rfl
  · rw [htables]
    exact isPrefix_placePayloads hpushed.isPrefix hpushed.le_index
  · rw [htables]
    exact map_placePayloads hf _ _ _

namespace Inserted

variable {p' : Package} {k : Nat} {w : p.tables.NamePath r.name}

theorem grows (h : p.Inserted stored w type super packageType emptyList k p') :
    p.tables.Grows p'.tables := by
  rw [h.tables]
  exact { Tables.Grows.refl p.tables with exports := h.isPrefix }

/-- What was stored before is what it was. -/
theorem kept (h : p.Inserted stored w type super packageType emptyList k p')
    (hp : p.Intact stored) {i : Nat} (hi : i < p.tables.exports.length) :
    p'.exportData i = p.exportData i := by
  have hlt : i < stored.length := hp.placed.length ▸ hi
  have hdata := List.getElem?_eq_getElem hlt
  rw [hp.faithful.data i _ hdata,
    h.intact.faithful.data i _ ((List.getElem?_append_left hlt).trans hdata)]

/-- All exports are in their places. -/
theorem keys (h : p.Inserted stored w type super packageType emptyList k p') :
    (w.added type super packageType (Encode.compact emptyList)).exports.map ExportEntry.key <+:
      p'.tables.exports.map ExportEntry.key := by
  have hsame := h.same (f := ExportEntry.key) fun _ _ _ => rfl
  exact hsame ▸ List.prefix_refl _

/-- The export bears the name that it was added by, behind that of the package. -/
theorem name (h : p.Inserted stored w type super packageType emptyList k p') :
    p'.tables.HasName (dotted [p.tables.package, r.name]) (p.tables.exports.length + k) := by
  obtain ⟨hn, -, hlength⟩ := h.intact.length_tables_lt
  rw [h.tables] at hn ⊢
  rw [← h.count]
  exact w.hasName_added hn (Nat.le_of_lt_succ hlength) h.keys

/-- The export has the class, the super and the flags that it was given. -/
theorem entry (h : p.Inserted stored w type super packageType emptyList k p') :
    ∃ e, p'.tables.exports[p.tables.exports.length + k]? = some e ∧ e.type = type ∧
      e.super = super ∧ e.flags = r.flags := by
  have hsame := h.same (f := fun e => (e.type, e.super, e.flags)) fun _ _ _ => rfl
  have hlast := congrArg (·[p.tables.exports.length + k]?) hsame
  rw [← h.count, List.getElem?_map, List.getElem?_map, Tables.NamePath.added, ExportDraft.push,
    List.getElem?_concat_length, Option.map_some, Option.map_eq_some_iff] at hlast
  obtain ⟨e, he, heq⟩ := hlast
  rw [h.count] at he
  obtain ⟨htype, hrest⟩ := Prod.mk.inj heq
  obtain ⟨hsuper, hflags⟩ := Prod.mk.inj hrest
  exact ⟨e, he, htype, hsuper, hflags⟩

/-- What the packages and the export hold. -/
theorem exportData (h : p.Inserted stored w type super packageType emptyList k p')
    (hp : p.Intact stored) {i : Nat} {data : List UInt8}
    (hi : (List.replicate k (Encode.compact emptyList) ++ [r.data])[i]? = some data) :
    p'.exportData (p.tables.exports.length + i) = .ok data := by
  refine h.intact.faithful.data _ _ ?_
  rwa [← hp.placed.length, List.getElem?_append_right (Nat.le_add_right _ _),
    Nat.add_sub_cancel_left]

/-- A package that was missing is there, with an empty list. -/
theorem emptyPackage (h : p.Inserted stored w type super packageType emptyList k p')
    (hp : p.Intact stored) (hserves : p.tables.Serves r type super packageType)
    (hnone : p.tables.nameIndex noneName = .ok emptyList)
    (hclosed : p.tables.exportDraft.Closed)
    (hcount : p.tables.exports.length + w.path.length ≤ 0x7fffffff) {n : Nat} (hpos : 0 < n)
    (hlt : n < (segments r.name).length)
    (hmissing : p.tables.packageExport? packageType ((segments r.name).take n) = none) :
    ∃ i, p.tables.exports.length ≤ i ∧ p'.EmptyPackage (dotted ((segments r.name).take n)) i := by
  obtain ⟨hn, -, hlength⟩ := h.intact.length_tables_lt
  obtain ⟨hn', -, -⟩ := hp.length_tables_lt
  have hpath := w.length_path
  obtain ⟨i, e, hnew, hi, he, htype, hname⟩ := w.exists_package hn' (Nat.le_of_lt_succ hlength)
    h.keys hclosed hcount (by omega) hmissing
  rw [h.count] at hi
  obtain ⟨i, rfl⟩ := Nat.exists_eq_add_of_le hnew
  have hindex : p'.tables.nameIndex noneName = .ok emptyList := by
    rw [h.tables]
    exact hnone
  refine ⟨_, hnew, e, emptyList, he, ?_, ?_, hindex, h.exportData hp ?_, fun schema cs => ?_⟩
  · rw [htype]
    exact (hserves.package (by omega)).grow h.grows
  · rw [h.tables]
    exact hname
  · rw [List.getElem?_append_left (by rw [List.length_replicate]; omega)]
    exact List.getElem?_replicate_of_lt (by omega)
  · exact readProperties_compact ⟨p'.tables, schema, cs⟩ (Tables.exists_spells hn hindex) hindex

end Inserted

/-- An export for which names and classes are there is added where its place is free. -/
theorem Ready.exists_exported (h : p.Ready stored)
    (hserves : p.tables.Serves r type super packageType)
    (hrooted : ∀ i < p.tables.exports.length, p.tables.Rooted (.ofExport i))
    (hcount : p.tables.exports.length + (segments r.name).length < 0x80000000)
    (hfree : ¬p.tables.Occupied r.name type packageType) (hdata : r.data.length < 0x80000000)
    (hsize : (Change.insertExport r type super packageType p).2.image.length < 0x100000000) :
    ∃ index p', Change.insertExport r type super packageType p = (.ok index, p') ∧
      p.Exported p.tables packageType r index p' := by
  obtain ⟨w⟩ := Tables.exists_namePath fun n hn => hserves.knows n (List.mem_cons_of_mem _ hn)
  obtain ⟨emptyList, hnone⟩ := (hserves.knows noneName List.mem_cons_self).exists_index
  have hpath := w.length_path
  have hcount : p.tables.exports.length + w.path.length ≤ 0x7fffffff := by omega
  have hclosed : p.tables.exportDraft.Closed :=
    Tables.closed_exportDraft (Nat.le_trans (Nat.le_add_right _ _) hcount) hrooted
  obtain ⟨k, p', hrun, hp'⟩ := h.exists_inserted super w hnone
    (w.find?_packages_eq_none hclosed hcount hfree) hdata hsize
  obtain ⟨e, he, htype, hsuper, hflags⟩ := hp'.entry
  have hlast : (List.replicate k (Encode.compact emptyList) ++ [r.data])[k]? = some r.data := by
    rw [List.getElem?_append_right (by rw [List.length_replicate]), List.length_replicate,
      Nat.sub_self]
    rfl
  exact ⟨_, p', hrun,
    { intact := ⟨_, hp'.intact⟩
      grows := hp'.grows
      kept := fun i hi => hp'.kept h.intact hi
      new := Nat.le_add_right _ _
      name := hp'.name
      entry := ⟨e, he, hflags, htype ▸ hserves.type.grow hp'.grows,
        hsuper ▸ hserves.super.grow hp'.grows⟩
      data := hp'.exportData h.intact hlast
      packages := fun n hpos hlt hmissing =>
        hp'.emptyPackage h.intact hserves hnone hclosed hcount hpos hlt hmissing }⟩

/-- Exports can be added to every package with a payload whose exports are all rooted, as long as
there are references for all of them and the call stays within the limits of the format. The steps
before the last one succeed and give references for the class, the super and the packages around the
export. If then no export has this class, this owner and this last name, the export is added: it has
the name, the class, the super, the flags and the payload that were given, each package that was
missing is there with an empty property list, and what there was before stays as it is in front of
them. Within the limits (`Mutation.Fits`), each part of the names has fewer than `2 ^ 31 - 1`
characters, the payload takes less than 2 GiB, and the image stays below 4 GiB, also between the
relocations. -/
theorem addExport_exact (h : p.Intact stored) (hsized : ∃ e ∈ p.tables.exports, 0 < e.size.toInt)
    (hrooted : ∀ i < p.tables.exports.length, p.tables.Rooted (.ofExport i))
    (hcount : p.tables.exports.length + (segments r.name).length < 0x80000000)
    (hfits : (Mutation.addExport r).Fits p) :
    ∃ type super packageType p₁,
      Change.prepareExport r p = (.ok (type, super, packageType), p₁) ∧
      p₁.tables.Serves r type super packageType ∧ p.tables.Grows p₁.tables ∧
      p₁.tables.exports = p.tables.exports ∧
      (¬p₁.tables.Occupied r.name type packageType →
        ∃ index p', Change.addExport r p = (.ok index, p') ∧
          p.Exported p₁.tables packageType r index p') := by
  obtain ⟨hname, htype, hsuper⟩ := hfits.exportTexts
  obtain ⟨⟨type, super, packageType⟩, p₁, hrun, h₁, -, hgrows, hexports, hserves⟩ :=
    (h.ready hsized).prepareExport hname htype hsuper hfits.stages
  refine ⟨type, super, packageType, p₁, hrun, hserves, hgrows, hexports, fun hfree => ?_⟩
  have hsize := hfits.size
  rw [Mutation.change, Change.after_bind_pure, Change.addExport, Change.bind_ok hrun] at hsize
  obtain ⟨index, p', hrun', hp'⟩ := h₁.exists_exported hserves (hexports ▸ fun i hi => by
      obtain ⟨way, hway⟩ := hrooted i hi
      exact ⟨way, hgrows.ownerPath hway⟩)
    (hexports ▸ hcount) hfree (hfits.payloads _ List.mem_cons_self) hsize
  refine ⟨index, p', ?_, hp'.intact, hgrows.trans hp'.grows, fun i hi => ?_, hexports ▸ hp'.new, ?_,
    hp'.entry, hp'.data, hexports ▸ hp'.packages⟩
  · rw [Change.addExport, Change.bind_ok hrun]
    exact hrun'
  · rw [hp'.kept i (hexports ▸ hi)]
    exact h.exportData_eq h₁.intact i
  · rw [← hgrows.package]
    exact hp'.name

end Package

/-- An export of a class that is not there yet, under two packages. -/
def ExportRequest.nested : ExportRequest where
  name := "G.h.Thing"
  type := "Engine.Thing"
  super := ""
  data := [1, 2]
  flags := 4

namespace Package

theorem rooted_exports_importing : ∀ i < importing.tables.exports.length,
    importing.tables.Rooted (.ofExport i) := by
  intro i hi
  obtain rfl := Nat.lt_one_iff.1 hi
  exact ⟨_, .owned (e := .exported 0 ⟨.none, .none, .none, 0, 0, 1, 64⟩) rfl .here⟩

/-- An export is added under two packages that are missing. -/
theorem addExport_exact_importing :
    ∃ index p', Change.addExport .nested importing = (.ok index, p') ∧
      p'.tables.HasName (dotted ["P", "G.h.Thing"]) index ∧ p'.exportData index = .ok [1, 2] ∧
      (∃ e, p'.tables.exports[index]? = some e ∧ e.flags = 4 ∧
        p'.tables.Means "Engine.Thing" e.type ∧ p'.tables.Means "" e.super) ∧
      (∃ i, p'.EmptyPackage "G" i) ∧ (∃ i, p'.EmptyPackage "G.h" i) ∧
      p'.exportData 0 = .ok [7] := by
  have hfits : (Mutation.addExport .nested).Fits importing :=
    ⟨by decide, by decide, by decide +kernel, by decide +kernel⟩
  have hfree : (match Change.prepareExport .nested importing with
      | (.ok (type, _, packageType), p₁) => decide (
        ¬p₁.tables.Occupied "G.h.Thing" type packageType ∧
          p₁.tables.packageExport? packageType ["G"] = none ∧
          p₁.tables.packageExport? packageType ["G", "h"] = none)
      | (.error _, _) => false) = true := by decide +kernel
  obtain ⟨type, super, packageType, p₁, hrun, -, -, -, hadd⟩ :=
    addExport_exact intact_importing (by decide) rooted_exports_importing (by decide) hfits
  rw [hrun] at hfree
  obtain ⟨hfree, hfirst, hsecond⟩ := of_decide_eq_true hfree
  obtain ⟨index, p', hrun', hp'⟩ := hadd hfree
  obtain ⟨i, -, hi⟩ := hp'.packages 1 (by decide) (by decide) hfirst
  obtain ⟨j, -, hj⟩ := hp'.packages 2 (by decide) (by decide) hsecond
  refine ⟨index, p', hrun', hp'.name, hp'.data, hp'.entry, ⟨i, hi⟩, ⟨j, hj⟩, ?_⟩
  rw [hp'.kept 0 (by decide)]
  exact intact_importing.faithful.data 0 _ rfl

end Package

/-! ## The limits -/

/-- An export with a name of so many letters. -/
def ExportRequest.lettered (n : Nat) : ExportRequest where
  name := letters n
  type := ""
  super := ""
  data := [5]
  flags := 0

/-- An export with a payload of so many zeros. -/
def ExportRequest.zeros (n : Nat) : ExportRequest where
  name := "A"
  type := ""
  super := ""
  data := List.replicate n 0
  flags := 0

/-- A draft whose export has a class that is not among the imports. -/
def Draft.dangling : Draft where
  version := 68
  licensee := 0
  flags := 1
  guid := ⟨0, 0, 0, 0⟩
  generations := []
  names := [⟨"None", 0⟩, ⟨"A", 0⟩]
  exports := [(⟨.ofImport 1, .none, .none, 1, 0, 0, 0⟩, [7])]

/-- An export that has the place of the one of that draft once its class is the second import. -/
def ExportRequest.dangling : ExportRequest where
  name := "A"
  type := "Core.Foo"
  super := ""
  data := [5]
  flags := 0

namespace Package

/-- The package that the draft makes. -/
def dangling : Package where
  image :=
    [0xC1, 0x83, 0x2A, 0x9E, 68, 0, 0, 0, 1, 0, 0, 0, 2, 0, 0, 0, 65, 0, 0, 0, 1, 0, 0, 0, 82, 0, 0,
      0, 0, 0, 0, 0, 82, 0, 0, 0, 0, 0, 0, 0, 0, 0, 0, 0, 0, 0, 0, 0, 0, 0, 0, 0, 1, 0, 0, 0, 1, 0,
      0, 0, 2, 0, 0, 0, 7, 5, 78, 111, 110, 101, 0, 0, 0, 0, 0, 2, 65, 0, 0, 0, 0, 0, 0x82, 0, 0, 0,
      0, 0, 1, 0, 0, 0, 0, 1, 0x40, 1]
  header := ⟨68, 0, 1, ⟨2, 65⟩, ⟨1, 82⟩, ⟨0, 82⟩, ⟨0, 0, 0, 0⟩, [⟨1, 2⟩]⟩
  tables := ⟨"P", [⟨"None", 0⟩, ⟨"A", 0⟩], [], [⟨.ofImport 1, .none, .none, 1, 0, 1, 64⟩]⟩
  options := { writable := true }

theorem intact_dangling : dangling.Intact [[7]] := by
  have hstore : Draft.dangling.store .windows1252 [] = .ok dangling.image :=
    Draft.store_eq_ok.2 (by decide +kernel)
  have hload : load "P" dangling.options dangling.image = .ok dangling := by decide +kernel
  exact Draft.intact hstore hload rfl (by decide) (by decide) (by decide) (by decide +kernel)

theorem rooted_exports_dangling : ∀ i < dangling.tables.exports.length,
    dangling.tables.Rooted (.ofExport i) := by
  intro i hi
  obtain rfl := Nat.lt_one_iff.1 hi
  exact ⟨_, .owned (e := .exported 0 ⟨.ofImport 1, .none, .none, 1, 0, 1, 64⟩) rfl .here⟩

/-- An export whose only name is too long fails with that name. -/
theorem exportNames_lettered {n : Nat} (hn : n = 0x7FFFFFFF) :
    ∃ image, Change.exportNames (.lettered n) importing =
      (.error .truncated, { importing with image }) ∧ image.length < 0x100000000 := by
  have hknown : ∀ x ∈ noneName :: packageClassNames, importing.tables.Knows x := by
    simp only [packageClassNames, Tables.knows_iff]
    decide
  obtain ⟨image, hrun, hsize, -⟩ := roomy_importing.ensureNames hn hknown (List.forall_mem_nil _)
  refine ⟨image, ?_, hsize⟩
  rw [Change.exportNames, ExportRequest.lettered, segments_letters]
  exact hrun

/-- The tables with an export of zeros behind the others, of a size and at an offset. -/
def importing.withZeros (size offset : Int32) : Tables :=
  { importing.tables with
    exports := importing.tables.exports ++ [⟨.none, .none, .none, 3, 0, size, offset⟩] }

/-- The names and classes of such an export are there already, so it only takes a relocation. -/
theorem addExport_zeros (n : Nat) : Change.addExport (.zeros n) importing =
    (do
      Change.relocate (importing.withZeros 0 0) [⟨1, List.replicate n 0⟩]
      pure 1) importing := by
  have hprepare : Change.prepareExport (.zeros n) importing =
      (.ok (.none, .none, .none), importing) := by
    -- The payload plays no part in it.
    have hempty : (Change.prepareExport (.zeros 0) importing).1 = .ok (.none, .none, .none) ∧
        (Change.prepareExport (.zeros 0) importing).2 = importing := by decide +kernel
    exact Prod.ext hempty.1 hempty.2
  have hpath : (segments "A").dropLast.mapM importing.tables.nameIndex = .ok [] := by
    decide +kernel
  have hlast : importing.tables.nameIndex ((segments "A").getLastD "") = .ok 3 := by
    decide +kernel
  have hnone : importing.tables.nameIndex noneName = .ok 0 := by decide +kernel
  rw [Change.addExport, Change.bind_ok hprepare]
  exact Change.insertExport_eq ⟨[], 3, hpath, hlast⟩ hnone rfl

/-- A payload of 2 GiB is stored with the lowest size there is, and cannot be found again. -/
theorem exportData_zeros {n : Nat} (hn : n = 0x80000000) :
    ∃ p', Change.addExport (.zeros n) importing = (.ok 1, p') ∧ p'.image.length < 0x100000000 ∧
      p'.exportData 1 = .ok [] := by
  obtain ⟨body, nameBytes, hlaid⟩ := intact_importing.laid
  have hplaced : Change.placedTables (importing.withZeros 0 0) 65 [⟨1, List.replicate n 0⟩] =
      importing.withZeros Int32.minValue 65 := by
    simp only [Change.placedTables, placePayloads, placePayload, List.length_replicate, hn]
    rfl
  have hsize : (Change.relocate (importing.withZeros 0 0) [⟨1, List.replicate n 0⟩]
      importing).2.image.length < 0x100000000 := by
    have htables : (Encode.nameTable importing.options.charset
        (importing.withZeros Int32.minValue 65).names).length +
      (Encode.importTable (importing.withZeros Int32.minValue 65).imports).length +
        (Encode.exportTable (importing.withZeros Int32.minValue 65).exports).length < 0x100 := by
      decide
    rw [Change.image_relocate rfl roomy_importing.dataEnd, hplaced,
      length_image_relocated hlaid.image roomy_importing.behind, List.flatMap_singleton,
      List.length_replicate, hn]
    omega
  obtain ⟨p', hrun, hp'⟩ := Change.relocate_ok (t := importing.withZeros 0 0)
    roomy_importing.writable roomy_importing.dataEnd hlaid.image hlaid.generations
    roomy_importing.behind rfl roomy_importing.storable hsize
  refine ⟨p', ?_, ?_, ?_⟩
  · rw [addExport_zeros, Change.bind_ok hrun]
    rfl
  · rwa [hrun] at hsize
  · have he : p'.tables.exports[1]? = some ⟨.none, .none, .none, 3, 0, Int32.minValue, 65⟩ := by
      rw [hp'.tables, hplaced]
      rfl
    exact exportData_eq_ok he rfl

/-- The limits are needed, and the place has to be free once the names and classes are there. Below
4 GiB, an export with a name that is too long fails, and one with a payload of 2 GiB is added
without it; and where there is no class of the name that is asked for, an export may have its
reference. -/
theorem addExport_exact_needs_limits :
    (importing.Intact [[7]] ∧ (∃ e ∈ importing.tables.exports, 0 < e.size.toInt) ∧
      ∀ i < importing.tables.exports.length, importing.tables.Rooted (.ofExport i)) ∧
    (∃ r : ExportRequest, ¬importing.tables.Knows r.name ∧ r.data.length < 0x80000000 ∧
      (∀ c ∈ Change.exportStages r, (c importing).2.image.length < 0x100000000) ∧
      (Change.addExport r importing).2.image.length < 0x100000000 ∧
      (Change.addExport r importing).1 = .error .truncated) ∧
    (∃ (r : ExportRequest) (p' : Package), StorableParts r.name ∧
      (∀ c ∈ Change.exportStages r, (c importing).2.image.length < 0x100000000) ∧
      Change.addExport r importing = (.ok 1, p') ∧ p'.image.length < 0x100000000 ∧
      r.data ≠ [] ∧ p'.exportData 1 = .ok []) ∧
    (dangling.Intact [[7]] ∧ (∃ e ∈ dangling.tables.exports, 0 < e.size.toInt) ∧
      (∀ i < dangling.tables.exports.length, dangling.tables.Rooted (.ofExport i)) ∧
      dangling.tables.referenceTo "Core.Foo" = .none ∧
      (Mutation.addExport .dangling).Fits dangling ∧
      (Change.addExport .dangling dangling).1 = .ok 0 ∧
      (Change.addExport .dangling dangling).2.exportData 0 = .ok [7]) := by
  refine ⟨⟨intact_importing, by decide, rooted_exports_importing⟩,
    ⟨.lettered 0x7FFFFFFF, roomy_importing.not_knows rfl, by decide, ?_⟩,
    ⟨.zeros 0x80000000, ?_⟩, intact_dangling, by decide, rooted_exports_dangling,
    by decide +kernel, ⟨by decide, by decide, by decide +kernel, by decide +kernel⟩,
    by decide +kernel, by decide +kernel⟩
  · obtain ⟨image, hnames, hsize⟩ := exportNames_lettered rfl
    have hadd : Change.addExport (.lettered 0x7FFFFFFF) importing =
        (.error .truncated, { importing with image }) :=
      Change.bind_error (Change.bind_error hnames)
    refine ⟨fun c hc => ?_, by rwa [hadd], by rw [hadd]⟩
    rwa [Change.exportStages_error hnames c hc]
  · obtain ⟨p', hadd, hsize, hdata⟩ := exportData_zeros rfl
    have hstages : ∀ c ∈ Change.exportStages (.zeros 0),
        (c importing).2.image.length < 0x100000000 := by decide +kernel
    exact ⟨p', by decide, hstages, hadd, hsize, List.replicate_succ_ne_nil, hdata⟩

end Package

end UnrealPackage
