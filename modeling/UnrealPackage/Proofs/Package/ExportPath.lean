import Mathlib.Data.List.Induction
import UnrealPackage.Proofs.Package.Exports
import UnrealPackage.Proofs.Tables.FullName
import UnrealPackage.Proofs.Tables.Lookup
/-!
# Packages around an export

An export that is added goes under an export of a package for each part of its name but the last.
`ExportDraft.nest` is what adding these packages does when the names are known. The packages own one
another in the order of the path (`ExportDraft.exists_nest_way`).

Those that were there already are used again (`Tables.nest_of_found`). From the first one on that is
missing all are new, since what was there before is not owned by anything new
(`Tables.nest_of_missing`). So the place of an export that is to be added is only taken if it was
taken before (`Tables.NamePath.find?_packages_eq_none`).

What the exports have in common with those that are stored in the end is their places, not those of
their payloads. So the names of the packages and of the export are stated for all tables with these
places (`Tables.NamePath.hasName_added`, `Tables.NamePath.exists_package`).
-/

namespace UnrealPackage

namespace ObjectRef

/-- The reference does not lead to an export behind the first `n`. -/
def Below (n : Nat) (r : ObjectRef) : Prop :=
  ∀ i, r.target = .exported i → i < n

variable {r : ObjectRef} {n m i : Nat}

theorem below_none : none.Below n :=
  nofun

theorem below_ofExport (hi : i < n) (hn : n ≤ 0x7fffffff) : (ofExport i).Below n := by
  intro j hj
  rw [target_ofExport (by omega)] at hj
  cases hj
  exact hi

theorem Below.mono (h : r.Below n) (hle : n ≤ m) : r.Below m :=
  fun i hi => Nat.lt_of_lt_of_le (h i hi) hle

theorem Below.ne_ofExport (h : r.Below n) (hi : n ≤ i) (hlt : i < 0x7fffffff) :
    r ≠ ofExport i := by
  rintro rfl
  exact Nat.not_lt.2 hi (h i (target_ofExport hlt))

end ObjectRef

namespace ExportDraft

variable {d : ExportDraft} {k : ExportKey} {type outer : ObjectRef} {data : List UInt8}
  {front back path : List NameIndex}

/-! ## One package -/

/-- Where there is an export, there is one in the same place among others with these places. -/
theorem exists_of_keys {exports exports' : List ExportEntry} {i : Nat} {e : ExportEntry}
    (h : exports.map ExportEntry.key <+: exports'.map ExportEntry.key)
    (he : exports[i]? = some e) : ∃ x, exports'[i]? = some x ∧ x.key = e.key := by
  have hkey := getElem?_of_isPrefix h (List.getElem?_map.trans (congrArg _ he))
  rwa [List.getElem?_map, Option.map_eq_some_iff] at hkey

theorem find?_eq_none : d.find? k = none ↔ ∀ e ∈ d.exports, e.key ≠ k := by
  simp only [find?, List.findIdx?_eq_none_iff, beq_eq_false_iff_ne]

theorem find?_eq_some {i : Nat} (h : d.find? k = some i) :
    ∃ e, d.exports[i]? = some e ∧ e.key = k := by
  obtain ⟨hi, hkey, -⟩ := List.findIdx?_eq_some_iff_getElem.1 h
  exact ⟨_, List.getElem?_eq_getElem hi, eq_of_beq hkey⟩

/-- The draft with a package in a place, added where there is none, and the reference to it. -/
def findOrPush (d : ExportDraft) (k : ExportKey) (data : List UInt8) : ExportDraft × ObjectRef :=
  match d.find? k with
  | some i => (d, .ofExport i)
  | none => (d.push (k.entry .none implicitFlags) data, .ofExport d.exports.length)

theorem findOrPush_of_some {i : Nat} (h : d.find? k = some i) :
    d.findOrPush k data = (d, .ofExport i) := by
  rw [findOrPush, h]

theorem findOrPush_of_none (h : d.find? k = none) : d.findOrPush k data =
    (d.push (k.entry .none implicitFlags) data, .ofExport d.exports.length) := by
  rw [findOrPush, h]

/-- The package is where it is said to be, in its place. -/
theorem findOrPush_spec (d : ExportDraft) (k : ExportKey) (data : List UInt8) :
    d.exports <+: (d.findOrPush k data).1.exports ∧
      (d.findOrPush k data).1.exports.length ≤ d.exports.length + 1 ∧
      ∃ i e, (d.findOrPush k data).2 = .ofExport i ∧
        (d.findOrPush k data).1.exports[i]? = some e ∧ e.key = k := by
  cases hfind : d.find? k with
  | some i =>
    rw [findOrPush_of_some hfind]
    obtain ⟨e, he, hkey⟩ := find?_eq_some hfind
    exact ⟨List.prefix_refl _, Nat.le_succ _, i, e, rfl, he, hkey⟩
  | none =>
    rw [findOrPush_of_none hfind]
    refine ⟨List.prefix_append _ _, ?_, _, _, rfl, List.getElem?_concat_length, rfl⟩
    exact Nat.le_of_eq List.length_append

/-! ## The packages of a path -/

/-- The draft with a package for each part of a path, each owned by the one before it, and the
reference to the last. -/
def nest (type : ObjectRef) (data : List UInt8) (d : ExportDraft) (outer : ObjectRef)
    (path : List NameIndex) : ExportDraft × ObjectRef :=
  path.foldl (fun nested part => nested.1.findOrPush ⟨type, nested.2, part⟩ data) (d, outer)

theorem nest_cons (part : NameIndex) : nest type data d outer (part :: path) =
    nest type data (d.findOrPush ⟨type, outer, part⟩ data).1
      (d.findOrPush ⟨type, outer, part⟩ data).2 path :=
  rfl

theorem nest_append : nest type data d outer (front ++ back) =
    nest type data (nest type data d outer front).1 (nest type data d outer front).2 back :=
  List.foldl_append

theorem nest_concat (part : NameIndex) : nest type data d outer (front ++ [part]) =
    (nest type data d outer front).1.findOrPush
      ⟨type, (nest type data d outer front).2, part⟩ data :=
  nest_append

/-- Packages with known names are added. -/
theorem addPackages_of_mapM {t : Tables} {names : List String}
    (h : names.mapM t.nameIndex = .ok path) :
    addPackages t type data d outer names = .ok (nest type data d outer path) := by
  induction names generalizing d outer path with
  | nil =>
    cases h
    rfl
  | cons name names ih =>
    rw [List.mapM_cons] at h
    obtain ⟨index, hindex, h⟩ := except_bind_eq_ok.1 h
    obtain ⟨indices, hindices, h⟩ := except_bind_eq_ok.1 h
    cases h
    rw [addPackages, hindex, except_ok_bind, nest_cons]
    dsimp only
    split
    · next i hfind =>
      rw [findOrPush_of_some hfind]
      exact ih hindices
    · next hfind =>
      rw [findOrPush_of_none hfind]
      exact ih hindices

/-- Packages are only added behind the exports there are. -/
theorem nest_isPrefix (type : ObjectRef) (data : List UInt8) (d : ExportDraft) (outer : ObjectRef)
    (path : List NameIndex) : d.exports <+: (nest type data d outer path).1.exports := by
  induction path using List.reverseRecOn with
  | nil => exact List.prefix_refl _
  | append_singleton front part ih =>
    rw [nest_concat]
    exact ih.trans (findOrPush_spec ..).1

/-- At most one export is added for each part of the path. -/
theorem length_nest_le (type : ObjectRef) (data : List UInt8) (d : ExportDraft)
    (outer : ObjectRef) (path : List NameIndex) :
    (nest type data d outer path).1.exports.length ≤ d.exports.length + path.length := by
  induction path using List.reverseRecOn with
  | nil => exact Nat.le_refl _
  | append_singleton front part ih =>
    rw [nest_concat, List.length_append, List.length_singleton, ← Nat.add_assoc]
    exact Nat.le_trans (findOrPush_spec ..).2.1 (Nat.succ_le_succ ih)

/-- Part of a path leads to the packages in front. -/
theorem nest_take_isPrefix (n : Nat) : (nest type data d outer (path.take n)).1.exports <+:
    (nest type data d outer path).1.exports := by
  conv_rhs => rw [← List.take_append_drop n path, nest_append]
  exact nest_isPrefix ..

/-- The packages of a path own one another, in all tables that keep what is in their places. -/
theorem exists_nest_way {t : Tables} (hlength : t.exports.length ≤ 0x7fffffff)
    (hkeys : (nest type data d outer path).1.exports.map ExportEntry.key <+:
      t.exports.map ExportEntry.key) :
    ∃ way, t.OwnerPath outer (nest type data d outer path).2 way ∧
      way.map TableEntry.objectName = path.reverse := by
  induction path using List.reverseRecOn with
  | nil => exact ⟨[], .here, rfl⟩
  | append_singleton front part ih =>
    rw [nest_concat] at hkeys ⊢
    obtain ⟨hkept, -, i, e, href, he, hkey⟩ := findOrPush_spec
      (nest type data d outer front).1 ⟨type, (nest type data d outer front).2, part⟩ data
    obtain ⟨way, hway, hnames⟩ := ih ((hkept.map _).trans hkeys)
    obtain ⟨x, hx, hx'⟩ := exists_of_keys hkeys he
    rw [hkey, ExportEntry.key, ExportKey.mk.injEq] at hx'
    have hi := (List.getElem?_eq_some_iff.1 hx).1
    refine ⟨.exported i x :: way, ?_, ?_⟩
    · rw [href]
      refine .owned (Tables.object_ofExport (by omega) hx) ?_
      rw [TableEntry.outer, hx'.2.1]
      exact hway
    · rw [List.map_cons, hnames, List.reverse_concat, TableEntry.objectName, hx'.2.2]

/-! ## Packages that are new -/

/-- The owners of exports are imports, or among the exports. -/
def Closed (d : ExportDraft) : Prop :=
  ∀ e ∈ d.exports, e.outer.Below d.exports.length

/-- To find a place or add it leaves all owners among the exports, and its own export is one of
them. -/
theorem Closed.findOrPush (h : d.Closed) (houter : k.outer.Below d.exports.length)
    (hlength : d.exports.length < 0x7fffffff) :
    (d.findOrPush k data).1.Closed ∧
      (d.findOrPush k data).2.Below (d.findOrPush k data).1.exports.length := by
  cases hfind : d.find? k with
  | some i =>
    rw [findOrPush_of_some hfind]
    obtain ⟨e, he, -⟩ := find?_eq_some hfind
    exact ⟨h, ObjectRef.below_ofExport (List.getElem?_eq_some_iff.1 he).1 (Nat.le_of_lt hlength)⟩
  | none =>
    rw [findOrPush_of_none hfind]
    have hgrown : (d.push (k.entry .none implicitFlags) data).exports.length =
        d.exports.length + 1 := List.length_append
    refine ⟨fun e he => ?_, ?_⟩
    · rw [hgrown]
      refine ObjectRef.Below.mono ?_ (Nat.le_succ _)
      rcases List.mem_append.1 he with he | he
      · exact h e he
      · rw [List.mem_singleton.1 he]
        exact houter
    · rw [hgrown]
      exact ObjectRef.below_ofExport (Nat.lt_succ_self _) (by omega)

/-- The packages of a path leave all owners among the exports, and the innermost one is one of them.
-/
theorem Closed.nest (h : d.Closed) (type : ObjectRef) (data : List UInt8) (path : List NameIndex)
    (houter : outer.Below d.exports.length)
    (hlength : d.exports.length + path.length ≤ 0x7fffffff) :
    (nest type data d outer path).1.Closed ∧
      (nest type data d outer path).2.Below (nest type data d outer path).1.exports.length := by
  induction path using List.reverseRecOn with
  | nil => exact ⟨h, houter⟩
  | append_singleton front part ih =>
    rw [List.length_append, List.length_singleton] at hlength
    obtain ⟨hclosed, hbelow⟩ := ih (by omega)
    have hle := length_nest_le type data d outer front
    rw [nest_concat]
    exact hclosed.findOrPush hbelow (by omega)

end ExportDraft

/-! ## What was there before -/

namespace Tables

variable {t : Tables} {type : ObjectRef} {data : List UInt8} {path front : List NameIndex}

/-- The exports of some tables, none of them with a payload that is still to be stored. -/
def exportDraft (t : Tables) : ExportDraft :=
  ⟨t.exports, []⟩

@[simp] theorem exports_exportDraft : t.exportDraft.exports = t.exports := rfl

/-- The packages of a path, by the indices of their names, if they are all there: the reference to
the last one. -/
def nestedExport? (t : Tables) (type : ObjectRef) (path : List NameIndex) : Option ObjectRef :=
  path.foldlM (fun outer part =>
    (t.exportDraft.find? ⟨type, outer, part⟩).map ObjectRef.ofExport) .none

/-- A path of packages is there if its front is and its last part is a package in it. -/
theorem nestedExport?_concat (part : NameIndex) : t.nestedExport? type (front ++ [part]) =
    (t.nestedExport? type front).bind fun outer =>
      (t.exportDraft.find? ⟨type, outer, part⟩).map ObjectRef.ofExport := by
  rw [nestedExport?, List.foldlM_append]
  refine bind_congr fun outer => ?_
  rw [List.foldlM_cons]
  exact bind_pure _

/-- Packages that are all there are not added. -/
theorem nest_of_found {r : ObjectRef} (h : t.nestedExport? type path = some r) :
    ExportDraft.nest type data t.exportDraft .none path = (t.exportDraft, r) := by
  induction path using List.reverseRecOn generalizing r with
  | nil =>
    cases h
    rfl
  | append_singleton front part ih =>
    rw [nestedExport?_concat, Option.bind_eq_some_iff] at h
    obtain ⟨outer, houter, h⟩ := h
    obtain ⟨i, hi, rfl⟩ := Option.map_eq_some_iff.1 h
    rw [ExportDraft.nest_concat, ih houter, ExportDraft.findOrPush_of_some hi]

/-- All exports are owned by what is in the tables if each has a way up. -/
theorem closed_exportDraft (hlength : t.exports.length ≤ 0x7fffffff)
    (h : ∀ i < t.exports.length, t.Rooted (.ofExport i)) : t.exportDraft.Closed := by
  intro e he j hj
  obtain ⟨i, hi⟩ := List.getElem?_of_mem (show e ∈ t.exports from he)
  have hlt := (List.getElem?_eq_some_iff.1 hi).1
  obtain ⟨way, hway⟩ := h i hlt
  obtain ⟨rest, -, hrest⟩ := hway.exists_rest (ObjectRef.ofExport_ne_none (by omega))
    (object_ofExport (by omega) hi)
  obtain ⟨owner, howner⟩ := hrest.exists_entry (by
    rw [TableEntry.outer, hj]
    exact nofun)
  rcases object_eq_some.1 howner with ⟨j', x, -, htarget, hx⟩ | ⟨j', x, -, htarget, -⟩
  · cases hj.symm.trans htarget
    exact (List.getElem?_eq_some_iff.1 hx).1
  · cases hj.symm.trans htarget

/-- From the first one on that is missing, the packages of a path are new, and own nothing but one
another. -/
theorem nest_of_missing (data : List UInt8) (hclosed : t.exportDraft.Closed)
    (hlength : t.exports.length + path.length ≤ 0x7fffffff)
    (h : t.nestedExport? type path = none) :
    ∃ m e, (ExportDraft.nest type data t.exportDraft .none path).2 = .ofExport m ∧
      t.exports.length ≤ m ∧
      (ExportDraft.nest type data t.exportDraft .none path).1.exports[m]? = some e ∧
      e.type = type ∧
      ∀ x ∈ (ExportDraft.nest type data t.exportDraft .none path).1.exports,
        x.outer ≠ .ofExport m := by
  induction path using List.reverseRecOn with
  | nil => cases h
  | append_singleton front part ih =>
    rw [List.length_append, List.length_singleton] at hlength
    obtain ⟨hclosed', hbelow⟩ := hclosed.nest type data front ObjectRef.below_none
      (Nat.le_trans (Nat.le_succ _) hlength)
    have hle := ExportDraft.length_nest_le type data t.exportDraft .none front
    rw [exports_exportDraft] at hle
    have hnew : (ExportDraft.nest type data t.exportDraft .none front).1.find?
        ⟨type, (ExportDraft.nest type data t.exportDraft .none front).2, part⟩ = none := by
      cases hfront : t.nestedExport? type front with
      | some r =>
        rw [nestedExport?_concat, hfront, Option.bind_some, Option.map_eq_none_iff] at h
        rwa [nest_of_found hfront]
      | none =>
        obtain ⟨m, e, href, -, -, -, hfresh⟩ := ih (by omega) hfront
        rw [href]
        exact ExportDraft.find?_eq_none.2 fun x hx hkey =>
          hfresh x hx (congrArg ExportKey.outer hkey)
    rw [ExportDraft.nest_concat, ExportDraft.findOrPush_of_none hnew]
    refine ⟨_, _, rfl, (ExportDraft.nest_isPrefix type data t.exportDraft .none front).length_le,
      List.getElem?_concat_length, rfl, fun x hx => ?_⟩
    rcases List.mem_append.1 hx with hx | hx
    · exact (hclosed' x hx).ne_ofExport (Nat.le_refl _) (by omega)
    · rw [List.mem_singleton.1 hx]
      exact hbelow.ne_ofExport (Nat.le_refl _) (by omega)

/-! ## By name -/

/-- The packages of a path of names, if they are all there: the reference to the last one. -/
def packageExport? (t : Tables) (type : ObjectRef) (path : List String) : Option ObjectRef := do
  let indices ← (path.mapM t.nameIndex).toOption
  t.nestedExport? type indices

/-- There is an export with the class and the last name under the packages of the path. -/
def Occupied (t : Tables) (name : String) (type packageType : ObjectRef) : Prop :=
  ∃ outer ∈ t.packageExport? packageType (segments name).dropLast,
    ∃ objectName ∈ (t.nameIndex ((segments name).getLastD "")).toOption,
      ∃ e ∈ t.exports, e.key = ⟨type, outer, objectName⟩

instance (t : Tables) (name : String) (type packageType : ObjectRef) :
    Decidable (t.Occupied name type packageType) :=
  inferInstanceAs (Decidable (∃ outer ∈ t.packageExport? packageType (segments name).dropLast,
    ∃ objectName ∈ (t.nameIndex ((segments name).getLastD "")).toOption,
      ∃ e ∈ t.exports, e.key = ⟨type, outer, objectName⟩))

/-- An export whose owners have the names that were found for some parts has these parts as its full
name behind the name of its package. -/
theorem hasName_of_path {i : Nat} {parts : List String} {indices : List NameIndex}
    {way : List TableEntry} (hn : t.names.length < 0x80000000) (hi : i < t.exports.length)
    (hlt : i < 0x7fffffff) (hindices : parts.mapM t.nameIndex = .ok indices)
    (hway : t.OwnerPath .none (.ofExport i) way)
    (hnames : way.map TableEntry.objectName = indices.reverse) :
    t.HasName (dotted [t.package, dotted parts]) i := by
  obtain ⟨s, hs, hsame⟩ :=
    innerFullName_of_path hn (ObjectRef.ofExport_ne_none hlt) hindices hway hnames
  refine ⟨_, exportFullName_eq_ok.2 ⟨hi, s, hs, rfl⟩, ?_⟩
  rw [sameName_iff, foldCase_dotted, foldCase_dotted, List.map_cons, List.map_cons, List.map_cons,
    List.map_cons, sameName_iff.1 hsame]

namespace NamePath

variable {name : String} {n : Nat} {packageType : ObjectRef} (w : t.NamePath name)

theorem packageExport?_take (hn : n ≤ w.path.length) :
    t.packageExport? type ((segments name).take n) = t.nestedExport? type (w.path.take n) := by
  rw [packageExport?, w.take_eq hn]
  rfl

/-- A place is occupied exactly if the packages of the path are there and an export has it below
them. -/
theorem occupied_iff : t.Occupied name type packageType ↔
    ∃ outer, t.nestedExport? packageType w.path = some outer ∧
      ∃ e ∈ t.exports, e.key = ⟨type, outer, w.last⟩ := by
  rw [Occupied, packageExport?, w.path_eq, w.last_eq]
  constructor
  · rintro ⟨outer, houter, _, ⟨⟩, he⟩
    exact ⟨outer, houter, he⟩
  · rintro ⟨outer, houter, he⟩
    exact ⟨outer, houter, w.last, rfl, he⟩

/-- The exports with the packages of the path but the last name, and the reference to the innermost
one. -/
def packages (w : t.NamePath name) (type : ObjectRef) (data : List UInt8) :
    ExportDraft × ObjectRef :=
  ExportDraft.nest type data t.exportDraft .none w.path

theorem addPackages_eq (w : t.NamePath name) (type : ObjectRef) (data : List UInt8) :
    ExportDraft.addPackages t type data ⟨t.exports, []⟩ .none (segments name).dropLast =
      .ok (w.packages type data) :=
  ExportDraft.addPackages_of_mapM w.path_eq

/-- A place that is free among the exports is still free when the packages around it are there. -/
theorem find?_packages_eq_none (hclosed : t.exportDraft.Closed)
    (hlength : t.exports.length + w.path.length ≤ 0x7fffffff)
    (hfree : ¬t.Occupied name type packageType) :
    (w.packages packageType data).1.find? ⟨type, (w.packages packageType data).2, w.last⟩ =
      none := by
  rw [w.occupied_iff] at hfree
  refine ExportDraft.find?_eq_none.2 fun x hx hkey => ?_
  cases hfound : t.nestedExport? packageType w.path with
  | some outer =>
    rw [packages, nest_of_found hfound] at hx hkey
    exact hfree ⟨outer, hfound, x, hx, hkey⟩
  | none =>
    obtain ⟨m, e, href, -, -, -, hfresh⟩ := nest_of_missing data hclosed hlength hfound
    rw [packages, href] at hkey
    exact hfresh x hx (congrArg ExportKey.outer hkey)

end NamePath

/-! ## An export with its packages -/

namespace NamePath

variable {r : ExportRequest} {n : Nat} {super packageType : ObjectRef} {emptyList : List UInt8}
  {exports : List ExportEntry} (w : t.NamePath r.name)

/-- The exports with the packages around a new one, and that one behind them. -/
def added (w : t.NamePath r.name) (type super packageType : ObjectRef) (emptyList : List UInt8) :
    ExportDraft :=
  (w.packages packageType emptyList).1.push
    ((⟨type, (w.packages packageType emptyList).2, w.last⟩ : ExportKey).entry super r.flags) r.data

/-- Some packages are added, and then the export. -/
theorem exists_pushed (w : t.NamePath r.name) (type super packageType : ObjectRef)
    (emptyList : List UInt8) : ∃ k,
    (w.packages packageType emptyList).1.exports.length = t.exports.length + k ∧
    ExportDraft.Pushed t.exports (w.added type super packageType emptyList)
      (List.replicate k emptyList ++ [r.data]) := by
  obtain ⟨k, hk⟩ := ExportDraft.pushed_addPackages .start (w.addPackages_eq packageType emptyList)
  have hlength := hk.length
  rw [List.nil_append, List.length_replicate] at hlength
  exact ⟨k, hlength, hk.push r.data rfl⟩

/-- The first packages of the path are owned one by the other wherever all of them are in their
places. -/
theorem exists_way (hlength : exports.length ≤ 0x7fffffff)
    (hkeys : (w.added type super packageType emptyList).exports.map ExportEntry.key <+:
      exports.map ExportEntry.key) (n : Nat) :
    ∃ way, { t with exports }.OwnerPath .none
        (ExportDraft.nest packageType emptyList t.exportDraft .none (w.path.take n)).2 way ∧
      way.map TableEntry.objectName = (w.path.take n).reverse := by
  refine ExportDraft.exists_nest_way hlength (List.IsPrefix.trans (List.IsPrefix.map _ ?_) hkeys)
  exact ExportDraft.nest_take_isPrefix n |>.trans (List.prefix_append _ _)

/-- The export has its name wherever it is in its place, and so are the packages around it. -/
theorem hasName_added (hn : t.names.length < 0x80000000) (hlength : exports.length ≤ 0x7fffffff)
    (hkeys : (w.added type super packageType emptyList).exports.map ExportEntry.key <+:
      exports.map ExportEntry.key) :
    { t with exports }.HasName (dotted [t.package, r.name])
      (w.packages packageType emptyList).1.exports.length := by
  obtain ⟨way, hway, hnames⟩ := w.exists_way hlength hkeys w.path.length
  rw [List.take_length, ← packages] at hway
  rw [List.take_length] at hnames
  obtain ⟨x, hx, hkey⟩ := ExportDraft.exists_of_keys hkeys List.getElem?_concat_length
  rw [ExportEntry.key, ExportEntry.key, ExportKey.mk.injEq] at hkey
  have hlt := (List.getElem?_eq_some_iff.1 hx).1
  have hown : { t with exports }.OwnerPath .none
      (.ofExport (w.packages packageType emptyList).1.exports.length)
      (.exported (w.packages packageType emptyList).1.exports.length x :: way) := by
    refine .owned (object_ofExport (by omega) hx) ?_
    rw [TableEntry.outer, hkey.2.1]
    exact hway
  have hname := hasName_of_path (t := { t with exports }) hn hlt (by omega) w.segments_eq hown (by
    rw [List.map_cons, hnames, List.reverse_concat, TableEntry.objectName, hkey.2.2]
    rfl)
  rwa [dotted_segments] at hname

/-- A package that was missing has its name and its class wherever it is in its place, and so are
those around it. -/
theorem exists_package (hn : t.names.length < 0x80000000) (hlength : exports.length ≤ 0x7fffffff)
    (hkeys : (w.added type super packageType emptyList).exports.map ExportEntry.key <+:
      exports.map ExportEntry.key)
    (hclosed : t.exportDraft.Closed) (hcount : t.exports.length + w.path.length ≤ 0x7fffffff)
    (hle : n ≤ w.path.length)
    (hmissing : t.packageExport? packageType ((segments r.name).take n) = none) :
    ∃ m x, t.exports.length ≤ m ∧ m < (w.packages packageType emptyList).1.exports.length ∧
      exports[m]? = some x ∧ x.type = packageType ∧
      { t with exports }.HasName (dotted [t.package, dotted ((segments r.name).take n)]) m := by
  rw [w.packageExport?_take hle] at hmissing
  obtain ⟨way, hway, hnames⟩ := w.exists_way hlength hkeys n
  obtain ⟨m, e, href, hnew, he, htype, -⟩ := nest_of_missing emptyList hclosed
    (by rw [List.length_take]; omega) hmissing
  have hpackages := getElem?_of_isPrefix (ExportDraft.nest_take_isPrefix n) he
  obtain ⟨x, hx, hkey⟩ := ExportDraft.exists_of_keys hkeys
    (getElem?_of_isPrefix (List.prefix_append _ _) hpackages)
  have hlt := (List.getElem?_eq_some_iff.1 hx).1
  refine ⟨m, x, hnew, (List.getElem?_eq_some_iff.1 hpackages).1, hx,
    (congrArg ExportKey.type hkey).trans htype, ?_⟩
  exact hasName_of_path (t := { t with exports }) hn hlt (by omega) (w.take_eq hle)
    (href ▸ hway) hnames

end NamePath

end Tables

end UnrealPackage
