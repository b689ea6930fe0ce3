import Mathlib.Data.List.Perm.Subperm
import UnrealPackage.Proofs.Binary.Reads
import UnrealPackage.Tables.FullName
/-!
# Owners

`Tables.OwnerPath t top r path` lists the entries on the way from `r` up through its owners, as far
as `top`; an object is `Rooted` if the way leads up to nothing. Such a way has no repetitions, so
`outerChain` has room for it, whatever rings there may be elsewhere in the tables
(`OwnerPath.length_le`). `innerFullName_eq_ok` says that an object has a full name exactly if it is
rooted and all names on the way are in the table.

What does not lie on a way does not matter for it (`OwnerPath.mono`). Where every owner has an owner
again, there is no way up to nothing, and the walk gives an error (`outerChain_of_ring`).
-/

namespace UnrealPackage

/-! ## References to the tables -/

namespace ObjectRef

theorem toInt_ofExport {i : Nat} (hi : i < 0x7fffffff) : (ofExport i).value.toInt = i + 1 := by
  rw [ofExport, Int32.toInt_ofInt_of_le (by omega) (by omega)]

theorem target_ofExport {i : Nat} (hi : i < 0x7fffffff) : (ofExport i).target = .exported i := by
  rw [target, toInt_ofExport hi]
  rw [if_neg (by omega), if_pos (by omega)]
  congr 1
  omega

theorem ofExport_ne_none {i : Nat} (hi : i < 0x7fffffff) : ofExport i ≠ none := by
  intro h
  have htarget := target_ofExport hi
  rw [h] at htarget
  cases htarget

theorem toInt_ofImport {i : Nat} (hi : i < 0x80000000) : (ofImport i).value.toInt = -i - 1 := by
  rw [ofImport, Int32.toInt_ofInt_of_le (by omega) (by omega)]

theorem target_ofImport {i : Nat} (hi : i < 0x80000000) : (ofImport i).target = .imported i := by
  rw [target, toInt_ofImport hi]
  rw [if_neg (by omega), if_neg (by omega)]
  congr 1
  omega

theorem ofImport_ne_none {i : Nat} (hi : i < 0x80000000) : ofImport i ≠ none := by
  intro h
  have htarget := target_ofImport hi
  rw [h] at htarget
  cases htarget

/-- References to different imports are different. -/
theorem ofImport_inj {i j : Nat} (hi : i < 0x80000000) (hj : j < 0x80000000)
    (h : ofImport i = ofImport j) : i = j := by
  have htarget := target_ofImport hi
  rw [h, target_ofImport hj] at htarget
  cases htarget
  rfl

theorem isNone_iff {r : ObjectRef} : r.isNone = true ↔ r = none := by
  rw [isNone, beq_iff_eq]
  exact ⟨congrArg mk, congrArg value⟩

/-- Only the reference to nothing leads to nothing. -/
theorem eq_none_of_target {r : ObjectRef} (h : r.target = .nothing) : r = none := by
  rw [target] at h
  split at h
  · next hzero => exact congrArg mk (Int32.toInt_inj.1 hzero)
  · split at h <;> cases h

/-- A reference whose target is an export is the one to it. -/
theorem eq_ofExport {r : ObjectRef} {i : Nat} (h : r.target = .exported i) : r = .ofExport i := by
  rw [target] at h
  split at h
  · cases h
  · split at h
    · next hpos =>
      cases h
      have hvalue : ((r.value.toInt - 1).toNat : Int) + 1 = r.value.toInt := by omega
      rw [ofExport, hvalue, Int32.ofInt_toInt]
    · cases h

/-- A reference whose target is an import is the one to it. -/
theorem eq_ofImport {r : ObjectRef} {i : Nat} (h : r.target = .imported i) : r = .ofImport i := by
  rw [target] at h
  split at h
  · cases h
  · split at h
    · cases h
    · next hzero hpos =>
      cases h
      have hvalue : -((-r.value.toInt - 1).toNat : Int) - 1 = r.value.toInt := by omega
      rw [ofImport, hvalue, Int32.ofInt_toInt]

end ObjectRef

namespace Tables

variable {t t' : Tables} {r top : ObjectRef} {e : TableEntry} {path path' : List TableEntry}

/-! ## Entries -/

/-- How the name at an index is spelled. -/
def spelling (t : Tables) (index : NameIndex) : String :=
  match t.name index with
  | .ok spelled => spelled
  | .error _ => ""

theorem name_eq_ok {index : NameIndex} {s : String} (h : t.name index = .ok s) :
    t.name index = .ok (t.spelling index) ∧ t.spelling index = s := by
  rw [spelling, h]
  exact ⟨rfl, rfl⟩

/-- All exports and imports. -/
def entries (t : Tables) : List TableEntry :=
  (t.exports.zipIdx.map fun x => .exported x.2 x.1) ++
    t.imports.zipIdx.map fun x => .imported x.2 x.1

@[simp] theorem length_entries : t.entries.length = t.exports.length + t.imports.length := by
  simp [entries]

@[simp] theorem object_none : t.object .none = .ok none := rfl

/-- Only the empty reference leads to no object. -/
theorem object_eq_none : t.object r = .ok none ↔ r = .none := by
  refine ⟨fun h => ?_, fun h => h ▸ rfl⟩
  rw [object] at h
  split at h
  · next htarget => exact ObjectRef.eq_none_of_target htarget
  · obtain ⟨_, -, h⟩ := except_bind_eq_ok.1 h
    cases h
  · obtain ⟨_, -, h⟩ := except_bind_eq_ok.1 h
    cases h

/-- The entries that references lead to, by table. -/
theorem object_eq_some : t.object r = .ok (some e) ↔
    (∃ i x, e = .exported i x ∧ r.target = .exported i ∧ t.exports[i]? = some x) ∨
      ∃ i x, e = .imported i x ∧ r.target = .imported i ∧ t.imports[i]? = some x := by
  rw [object]
  cases htarget : r.target with
  | nothing =>
    refine ⟨nofun, ?_⟩
    rintro (⟨i, x, -, h, -⟩ | ⟨i, x, -, h, -⟩) <;> cases h
  | exported i =>
    dsimp only
    rw [exportAt]
    cases hx : t.exports[i]? with
    | none =>
      refine ⟨nofun, ?_⟩
      rintro (⟨j, x, -, h, hx'⟩ | ⟨j, x, -, h, -⟩) <;> cases h
      cases hx.symm.trans hx'
    | some x =>
      refine ⟨fun h => ?_, ?_⟩
      · cases h
        exact .inl ⟨i, x, rfl, rfl, hx⟩
      · rintro (⟨j, x, rfl, h, hx'⟩ | ⟨j, x, -, h, -⟩) <;> cases h
        cases hx.symm.trans hx'
        rfl
  | imported i =>
    dsimp only
    rw [importAt]
    cases hx : t.imports[i]? with
    | none =>
      refine ⟨nofun, ?_⟩
      rintro (⟨j, x, -, h, -⟩ | ⟨j, x, -, h, hx'⟩) <;> cases h
      cases hx.symm.trans hx'
    | some x =>
      refine ⟨fun h => ?_, ?_⟩
      · cases h
        exact .inr ⟨i, x, rfl, rfl, hx⟩
      · rintro (⟨j, x, -, h, -⟩ | ⟨j, x, rfl, h, hx'⟩) <;> cases h
        cases hx.symm.trans hx'
        rfl

theorem object_ofImport {i : Nat} {x : ImportEntry} (hi : i < 0x80000000)
    (hx : t.imports[i]? = some x) : t.object (.ofImport i) = .ok (some (.imported i x)) :=
  object_eq_some.2 (.inr ⟨i, x, rfl, ObjectRef.target_ofImport hi, hx⟩)

theorem object_ofExport {i : Nat} {x : ExportEntry} (hi : i < 0x7fffffff)
    (hx : t.exports[i]? = some x) : t.object (.ofExport i) = .ok (some (.exported i x)) :=
  object_eq_some.2 (.inl ⟨i, x, rfl, ObjectRef.target_ofExport hi, hx⟩)

/-- An object that a reference leads to is in the tables. -/
theorem mem_entries (h : t.object r = .ok (some e)) : e ∈ t.entries := by
  rcases object_eq_some.1 h with ⟨i, x, rfl, -, hx⟩ | ⟨i, x, rfl, -, hx⟩
  · exact List.mem_append_left _
      (List.mem_map.2 ⟨(x, i), List.mk_mem_zipIdx_iff_getElem?.2 hx, rfl⟩)
  · exact List.mem_append_right _
      (List.mem_map.2 ⟨(x, i), List.mk_mem_zipIdx_iff_getElem?.2 hx, rfl⟩)

/-! ## Ways up -/

/-- The entries on the way from an object, itself first, through its owners as far as `top`. -/
inductive OwnerPath (t : Tables) (top : ObjectRef) : ObjectRef → List TableEntry → Prop
  | here : OwnerPath t top top []
  | owned {r : ObjectRef} {e : TableEntry} {path : List TableEntry} :
    t.object r = .ok (some e) → OwnerPath t top e.outer path → OwnerPath t top r (e :: path)

/-- The owners of the object lead up to nothing. -/
def Rooted (t : Tables) (r : ObjectRef) : Prop :=
  ∃ path, t.OwnerPath .none r path

namespace OwnerPath

/-- Only the entries on the way matter. -/
theorem mono (h : t.OwnerPath top r path)
    (hsame : ∀ r, ∀ e ∈ path, t.object r = .ok (some e) → t'.object r = .ok (some e)) :
    t'.OwnerPath top r path := by
  induction h with
  | here => exact .here
  | owned he _ ih =>
    exact .owned (hsame _ _ List.mem_cons_self he)
      (ih fun r e he => hsame r e (List.mem_cons_of_mem _ he))

/-- The way from an object below the top begins with its entry. -/
theorem exists_rest (h : t.OwnerPath top r path) (hne : r ≠ top)
    (he : t.object r = .ok (some e)) : ∃ rest, path = e :: rest ∧ t.OwnerPath top e.outer rest := by
  cases h with
  | here => exact absurd rfl hne
  | owned he' hrest =>
    cases he.symm.trans he'
    exact ⟨_, rfl, hrest⟩

/-- Whatever has a way up to nothing is in the tables. -/
theorem exists_entry (h : t.OwnerPath .none r path) (hr : r.target ≠ .nothing) :
    ∃ e, t.object r = .ok (some e) := by
  cases h with
  | here => exact absurd rfl hr
  | owned he _ => exact ⟨_, he⟩

theorem subset (h : t.OwnerPath top r path) : path ⊆ t.entries := by
  induction h with
  | here => exact List.nil_subset _
  | owned he _ ih => exact List.cons_subset.2 ⟨mem_entries he, ih⟩

/-- There is one way up to nothing at most. -/
theorem unique (h : t.OwnerPath .none r path) (h' : t.OwnerPath .none r path') :
    path = path' := by
  induction h generalizing path' with
  | here =>
    cases h' with
    | here => rfl
    | owned he _ => cases he
  | owned he _ ih =>
    cases h' with
    | here => cases he
    | owned he' hpath' =>
      cases he.symm.trans he'
      rw [ih hpath']

/-- What follows an entry on the way is the way from its owner. -/
theorem exists_shorter (h : t.OwnerPath top r path) (he : e ∈ path) :
    ∃ rest, t.OwnerPath top e.outer rest ∧ rest.length < path.length := by
  induction h with
  | here => cases he
  | owned _ hpath ih =>
    rcases List.mem_cons.1 he with rfl | he
    · exact ⟨_, hpath, Nat.lt_succ_self _⟩
    · obtain ⟨rest, hrest, hlt⟩ := ih he
      exact ⟨rest, hrest, Nat.lt_succ_of_lt hlt⟩

/-- No object with a root owns itself, not even through others. -/
theorem nodup (h : t.OwnerPath .none r path) : path.Nodup := by
  induction h with
  | here => exact List.nodup_nil
  | owned _ hpath ih =>
    refine List.nodup_cons.2 ⟨fun hmem => ?_, ih⟩
    obtain ⟨rest, hrest, hlt⟩ := hpath.exists_shorter hmem
    rw [hpath.unique hrest] at hlt
    exact Nat.lt_irrefl _ hlt

/-- A way up to nothing is no longer than both tables together. -/
theorem length_le (h : t.OwnerPath .none r path) :
    path.length ≤ t.exports.length + t.imports.length := by
  rw [← length_entries]
  exact h.nodup.length_le_of_subset h.subset

end OwnerPath

/-! ## Full names -/

/-- The names of the entries on a way, root first. -/
def pathNames (t : Tables) (path : List TableEntry) : List String :=
  (path.map fun e => t.spelling e.objectName).reverse

theorem pathNames_cons :
    t.pathNames (e :: path) = t.pathNames path ++ [t.spelling e.objectName] := by
  rw [pathNames, List.map_cons, List.reverse_cons]
  rfl

/-- The names on a way are found if there is room for it. -/
theorem OwnerPath.outerChain {start : ObjectRef} {room : Nat} (h : t.OwnerPath .none r path)
    (hroom : path.length ≤ room)
    (hnames : ∀ e ∈ path, t.name e.objectName = .ok (t.spelling e.objectName)) :
    t.outerChain start room r = .ok (t.pathNames path) := by
  induction h generalizing room with
  | here => cases room <;> rfl
  | owned he _ ih =>
    obtain ⟨room, rfl⟩ := Nat.exists_eq_succ_of_ne_zero (n := room) (by
      rw [List.length_cons] at hroom
      omega)
    obtain ⟨hname, hrest⟩ := List.forall_mem_cons.1 hnames
    have hothers := ih (Nat.le_of_succ_le_succ hroom) hrest
    rw [Tables.outerChain, he]
    refine except_bind_eq_ok.2 ⟨_, rfl, ?_⟩
    refine except_bind_eq_ok.2 ⟨_, hname, ?_⟩
    refine except_bind_eq_ok.2 ⟨_, hothers, ?_⟩
    rw [pathNames_cons]
    rfl

/-- Names that are found are those on a way up to nothing. -/
theorem exists_path_of_outerChain {start : ObjectRef} {room : Nat} {names : List String}
    (h : t.outerChain start room r = .ok names) :
    ∃ path, t.OwnerPath .none r path ∧
      (∀ e ∈ path, t.name e.objectName = .ok (t.spelling e.objectName)) ∧
      names = t.pathNames path := by
  induction room generalizing r names with
  | zero =>
    rw [Tables.outerChain] at h
    obtain ⟨found, hfound, h⟩ := except_bind_eq_ok.1 h
    cases found with
    | none =>
      cases h
      obtain rfl := object_eq_none.1 hfound
      exact ⟨[], .here, nofun, rfl⟩
    | some e => cases h
  | succ room ih =>
    rw [Tables.outerChain] at h
    obtain ⟨found, hfound, h⟩ := except_bind_eq_ok.1 h
    cases found with
    | none =>
      cases h
      obtain rfl := object_eq_none.1 hfound
      exact ⟨[], .here, nofun, rfl⟩
    | some e =>
      obtain ⟨name, hname, h⟩ := except_bind_eq_ok.1 h
      obtain ⟨owners, howners, h⟩ := except_bind_eq_ok.1 h
      cases h
      obtain ⟨path, hpath, hnames, rfl⟩ := ih howners
      obtain ⟨hspelled, rfl⟩ := name_eq_ok hname
      refine ⟨e :: path, .owned hfound hpath, List.forall_mem_cons.2 ⟨hspelled, hnames⟩, ?_⟩
      rw [pathNames_cons]

/-- An object has a full name exactly if it has a root and the names on the way there are in the
table. -/
theorem innerFullName_eq_ok {s : String} (hr : r ≠ .none) : t.innerFullName r = .ok s ↔
    ∃ path, t.OwnerPath .none r path ∧
      (∀ e ∈ path, t.name e.objectName = .ok (t.spelling e.objectName)) ∧
      s = dotted (t.pathNames path) := by
  rw [innerFullName, if_neg (fun h => hr (ObjectRef.isNone_iff.1 h))]
  constructor
  · intro h
    cases hnames : t.outerChain r (t.exports.length + t.imports.length + 1) r with
    | error _ =>
      rw [hnames] at h
      cases h
    | ok names =>
      rw [hnames] at h
      cases h
      obtain ⟨path, hpath, hspelled, rfl⟩ := exists_path_of_outerChain hnames
      exact ⟨path, hpath, hspelled, rfl⟩
  · rintro ⟨path, hpath, hspelled, rfl⟩
    rw [hpath.outerChain (Nat.le_succ_of_le hpath.length_le) hspelled]
    rfl

/-- Only an import that is there has a full name. -/
theorem exists_of_importFullName {i : Nat} {s : String} (h : t.importFullName i = .ok s) :
    ∃ x, t.imports[i]? = some x := by
  obtain ⟨x, hx, -⟩ := except_bind_eq_ok.1 h
  rw [importAt] at hx
  split at hx
  · next hfound => exact ⟨_, hfound⟩
  · cases hx

/-- The naming rule. The full name of an object lists the names of its owners from the root down,
its own last; before those of an export goes the name of the package. -/
inductive HasFullName (t : Tables) (r : ObjectRef) : String → Prop
  | nothing : r.target = .nothing → HasFullName t r noneName
  | exported {i : Nat} {path : List TableEntry} : r.target = .exported i →
    t.OwnerPath .none r path →
    (∀ e ∈ path, t.name e.objectName = .ok (t.spelling e.objectName)) →
    HasFullName t r (dotted [t.package, dotted (t.pathNames path)])
  | imported {i : Nat} {path : List TableEntry} : r.target = .imported i →
    t.OwnerPath .none r path →
    (∀ e ∈ path, t.name e.objectName = .ok (t.spelling e.objectName)) →
    HasFullName t r (dotted (t.pathNames path))

/-- A full name is answered exactly if the owners lead up to one. -/
theorem objectFullName_eq_ok {s : String} : t.objectFullName r = .ok s ↔ t.HasFullName r s := by
  have hne : ∀ {target}, r.target = target → target ≠ .nothing → r ≠ .none := by
    rintro target htarget hne rfl
    exact hne htarget.symm
  rw [objectFullName]
  constructor
  · intro h
    split at h
    · next htarget =>
      cases h
      exact .nothing htarget
    · next i htarget =>
      obtain ⟨_, -, h⟩ := except_bind_eq_ok.1 h
      obtain ⟨inner, hinner, h⟩ := except_bind_eq_ok.1 h
      cases h
      rw [← ObjectRef.eq_ofExport htarget, innerFullName_eq_ok (hne htarget nofun)] at hinner
      obtain ⟨path, hpath, hnames, rfl⟩ := hinner
      exact .exported htarget hpath hnames
    · next i htarget =>
      obtain ⟨_, -, hinner⟩ := except_bind_eq_ok.1 h
      rw [← ObjectRef.eq_ofImport htarget, innerFullName_eq_ok (hne htarget nofun)] at hinner
      obtain ⟨path, hpath, hnames, rfl⟩ := hinner
      exact .imported htarget hpath hnames
  · rintro (htarget | ⟨htarget, hpath, hnames⟩ | ⟨htarget, hpath, hnames⟩)
    · rw [htarget]
      rfl
    · have hinner := (innerFullName_eq_ok (hne htarget nofun)).2 ⟨_, hpath, hnames, rfl⟩
      obtain ⟨e, he⟩ := hpath.exists_entry (htarget ▸ nofun)
      rw [object, htarget] at he
      obtain ⟨x, hx, -⟩ := except_bind_eq_ok.1 he
      rw [htarget]
      refine except_bind_eq_ok.2 ⟨x, hx, except_bind_eq_ok.2 ⟨_, ?_, rfl⟩⟩
      rw [← ObjectRef.eq_ofExport htarget]
      exact hinner
    · have hinner := (innerFullName_eq_ok (hne htarget nofun)).2 ⟨_, hpath, hnames, rfl⟩
      obtain ⟨e, he⟩ := hpath.exists_entry (htarget ▸ nofun)
      rw [object, htarget] at he
      obtain ⟨x, hx, -⟩ := except_bind_eq_ok.1 he
      rw [htarget]
      refine except_bind_eq_ok.2 ⟨x, hx, ?_⟩
      rw [← ObjectRef.eq_ofImport htarget]
      exact hinner

/-- An object that keeps its way up and the names on it keeps its full name. -/
theorem innerFullName_mono {s : String} (hr : r ≠ .none)
    (hnames : ∀ index s, t.name index = .ok s → t'.name index = .ok s)
    (hpath : t.OwnerPath .none r path) (hpath' : t'.OwnerPath .none r path)
    (h : t.innerFullName r = .ok s) : t'.innerFullName r = .ok s := by
  obtain ⟨path₀, hpath₀, hspelled, rfl⟩ := (innerFullName_eq_ok hr).1 h
  cases hpath₀.unique hpath
  have hsame : ∀ e ∈ path, t'.name e.objectName = .ok (t.spelling e.objectName) :=
    fun e he => hnames _ _ (hspelled e he)
  refine (innerFullName_eq_ok hr).2 ⟨path, hpath', fun e he => (name_eq_ok (hsame e he)).1, ?_⟩
  refine congrArg (dotted ∘ List.reverse) (List.map_congr_left fun e he => ?_)
  exact (name_eq_ok (hsame e he)).2.symm

/-- An import keeps its full name in other tables if its names and its owners are the same. -/
theorem importFullName_mono {i : Nat} {x : ImportEntry} {s : String} (hi : i < 0x80000000)
    (hx : t'.imports[i]? = some x)
    (hnames : ∀ index s, t.name index = .ok s → t'.name index = .ok s)
    (hpath : t.OwnerPath .none (.ofImport i) path) (hpath' : t'.OwnerPath .none (.ofImport i) path)
    (h : t.importFullName i = .ok s) : t'.importFullName i = .ok s := by
  obtain ⟨_, -, hinner⟩ := except_bind_eq_ok.1 h
  rw [importFullName, importAt, hx]
  exact innerFullName_mono (ObjectRef.ofImport_ne_none hi) hnames hpath hpath' hinner

/-! ## Rings -/

section Ring

variable {S : ObjectRef → Prop}

/-- Where every owner has an owner, no way leads up to nothing. -/
theorem not_rooted_of_ring
    (hring : ∀ r, S r → ∃ e, t.object r = .ok (some e) ∧ S e.outer) (hr : S r) : ¬t.Rooted r := by
  rintro ⟨path, h⟩
  induction h with
  | here =>
    obtain ⟨e, he, -⟩ := hring _ hr
    cases he
  | owned he _ ih =>
    obtain ⟨e', he', howner⟩ := hring _ hr
    cases he.symm.trans he'
    exact ih howner

/-- Where every owner has an owner and a name, the walk finds out. -/
theorem outerChain_of_ring (hring : ∀ r, S r → ∃ e, t.object r = .ok (some e) ∧
      t.name e.objectName = .ok (t.spelling e.objectName) ∧ S e.outer) (hr : S r)
    (start : ObjectRef) (room : Nat) :
    t.outerChain start room r = .error (.outerChainLoops start.value.toInt) := by
  obtain ⟨e, he, hname, howner⟩ := hring r hr
  induction room generalizing r e with
  | zero =>
    rw [outerChain, he]
    rfl
  | succ room ih =>
    obtain ⟨e', he', hname', howner'⟩ := hring _ howner
    rw [outerChain, he]
    change (do
      let name ← t.name e.objectName
      let owners ← t.outerChain start room e.outer
      pure (owners ++ [name])) = _
    rw [hname, ih howner e' he' hname' howner']
    rfl

end Ring

end Tables

end UnrealPackage
