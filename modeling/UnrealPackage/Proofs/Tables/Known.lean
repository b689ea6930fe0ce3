import UnrealPackage.Package.Imports
import UnrealPackage.Proofs.Tables.Names
import UnrealPackage.Proofs.Text.Dotted
/-!
# Names that are known

Before a table gets entries with new names, the names are added to the name table. `NamesAdded` says
what that does to the table: what was there stays in front, and each name that was missing follows
once. From then on the names are known (`Tables.Knows`), so that an index is found for each of them
and entries can be made. `Tables.NamePath` holds the indices for the parts of a dotted name.
-/

namespace UnrealPackage

/-! ## Lists of results -/

/-- If items are all mapped, the first few are. -/
theorem mapM_take {α β : Type} {f : α → Except Error β} {items : List α} {results : List β}
    (h : items.mapM f = .ok results) (n : Nat) : (items.take n).mapM f = .ok (results.take n) := by
  induction items generalizing n results with
  | nil =>
    cases h
    cases n <;> rfl
  | cons item items ih =>
    rw [List.mapM_cons] at h
    obtain ⟨result, hresult, h⟩ := except_bind_eq_ok.1 h
    obtain ⟨rest, hrest, h⟩ := except_bind_eq_ok.1 h
    cases h
    cases n with
    | zero => rfl
    | succ n =>
      rw [List.take_succ_cons, List.take_succ_cons, List.mapM_cons, hresult]
      exact except_bind_eq_ok.2 ⟨_, rfl, except_bind_eq_ok.2 ⟨_, ih hrest n, rfl⟩⟩

/-- Each item has a result. -/
theorem length_of_mapM_eq_ok {α β : Type} {f : α → Except Error β} {items : List α}
    {results : List β} (h : items.mapM f = .ok results) : results.length = items.length := by
  induction items generalizing results with
  | nil =>
    cases h
    rfl
  | cons item items ih =>
    rw [List.mapM_cons] at h
    obtain ⟨result, -, h⟩ := except_bind_eq_ok.1 h
    obtain ⟨rest, hrest, h⟩ := except_bind_eq_ok.1 h
    cases h
    exact congrArg (· + 1) (ih hrest)

/-! ## Adding names -/

/-- The second table is the first one followed by those of the entries whose names it does not have
yet, one for each such name. -/
def NamesAdded (before entries after : List NameEntry) : Prop :=
  ∃ more, after = before ++ more ∧ more ⊆ entries ∧
    (∀ x ∈ before, ∀ e ∈ more, sameName x.name e.name = false) ∧
    more.Pairwise (fun x e => sameName x.name e.name = false) ∧
    ∀ e ∈ entries, ∃ x ∈ after, sameName x.name e.name = true

/-- Entries that are added one by one where they are missing are added. -/
theorem namesAdded_foldl (entries before : List NameEntry) :
    NamesAdded before entries (entries.foldl addMissing before) := by
  induction entries generalizing before with
  | nil => exact ⟨[], (List.append_nil _).symm, nofun, nofun, .nil, nofun⟩
  | cons e entries ih =>
    obtain ⟨more, hmore, hsub, hnew, hpairwise, hknown⟩ := ih (addMissing before e)
    rw [List.foldl_cons]
    by_cases hthere : before.any e.sameAs = true
    · rw [addMissing, if_pos hthere] at hmore hnew hknown ⊢
      obtain ⟨x, hx, hsame⟩ := List.any_eq_true.1 hthere
      refine ⟨more, hmore, fun y hy => List.mem_cons_of_mem _ (hsub hy), hnew, hpairwise,
        List.forall_mem_cons.2 ⟨⟨x, ?_, (sameName_comm _ _).trans hsame⟩, hknown⟩⟩
      rw [hmore]
      exact List.mem_append_left _ hx
    · rw [addMissing, if_neg hthere] at hmore hnew hknown ⊢
      rw [List.append_assoc, List.singleton_append] at hmore
      have hnew' : ∀ x ∈ before, ∀ y ∈ more, sameName x.name y.name = false :=
        fun x hx => hnew x (List.mem_append_left _ hx)
      have hself : ∀ y ∈ more, sameName e.name y.name = false :=
        hnew e (List.mem_append_right _ List.mem_cons_self)
      refine ⟨e :: more, hmore, List.cons_subset.2 ⟨List.mem_cons_self, fun y hy =>
        List.mem_cons_of_mem _ (hsub hy)⟩, fun x hx => List.forall_mem_cons.2 ⟨?_, hnew' x hx⟩,
        hpairwise.cons hself, List.forall_mem_cons.2 ⟨⟨e, ?_, sameName_iff.2 rfl⟩, hknown⟩⟩
      · rw [← Bool.not_eq_true, sameName_comm]
        exact fun hsame => hthere (List.any_eq_true.2 ⟨x, hx, hsame⟩)
      · rw [hmore]
        exact List.mem_append_right _ List.mem_cons_self

namespace NamesAdded

variable {before entries after : List NameEntry} {e : NameEntry}

/-- A name of the new table comes from the old one or is one of those that were to be added. -/
theorem mem (h : NamesAdded before entries after) (he : e ∈ after) : e ∈ before ∨ e ∈ entries := by
  obtain ⟨more, rfl, hsub, -⟩ := h
  exact (List.mem_append.1 he).imp_right fun he => hsub he

/-- What holds of the old names and of those that were to be added holds of all. -/
theorem forall_mem {P : NameEntry → Prop} (h : NamesAdded before entries after)
    (hbefore : ∀ e ∈ before, P e) (hentries : ∀ e ∈ entries, P e) : ∀ e ∈ after, P e :=
  fun e he => (h.mem he).elim (hbefore e) (hentries e)

theorem isPrefix (h : NamesAdded before entries after) : before <+: after := by
  obtain ⟨more, rfl, -⟩ := h
  exact List.prefix_append _ _

end NamesAdded

namespace Tables

variable {t t' : Tables} {name : String}

/-- The tables with some names added to them where they are missing. -/
def learn (t : Tables) (names : List String) : Tables :=
  { t with names := (names.map fun n => ⟨n, implicitFlags⟩).foldl addMissing t.names }

theorem namesAdded_learn (t : Tables) (names : List String) :
    NamesAdded t.names (names.map fun n => ⟨n, implicitFlags⟩) (t.learn names).names :=
  namesAdded_foldl _ _

/-- Names were added behind those there were, and nothing else. -/
def Extends (t t' : Tables) : Prop :=
  ∃ more, t' = { t with names := t.names ++ more }

theorem extends_learn (t : Tables) (names : List String) : t.Extends (t.learn names) := by
  obtain ⟨more, hmore⟩ := (t.namesAdded_learn names).isPrefix
  exact ⟨more, by rw [hmore]; rfl⟩

/-! ## Known names -/

/-- An entry of the name table bears the name. -/
def Knows (t : Tables) (name : String) : Prop :=
  ∃ e ∈ t.names, sameName e.name name = true

theorem Knows.mono (h : t.Knows name) (hsub : t.names ⊆ t'.names) : t'.Knows name :=
  h.imp fun _ he => ⟨hsub he.1, he.2⟩

theorem knows_learn {names : List String} : ∀ n ∈ names, (t.learn names).Knows n := by
  intro n hn
  obtain ⟨-, -, -, -, -, hknown⟩ := t.namesAdded_learn names
  exact hknown ⟨n, implicitFlags⟩ (List.mem_map_of_mem hn)

theorem knows_iff : t.Knows name ↔ (t.nameIndex? name).isSome = true := by
  rw [nameIndex?, List.findIdx?_isSome, List.any_eq_true]
  rfl

theorem not_knows_iff : ¬t.Knows name ↔ (t.nameIndex? name).isNone = true := by
  rw [knows_iff, Option.not_isSome_iff_eq_none, Option.isNone_iff_eq_none]

/-- Of names that are known, none is missing. -/
theorem filter_isNone_of_knows {names : List String} (h : ∀ n ∈ names, t.Knows n) :
    names.filter (fun n => (t.nameIndex? n).isNone) = [] :=
  List.filter_eq_nil_iff.2 fun n hn hnone => not_knows_iff.2 hnone (h n hn)

/-- A name that is known has an index. -/
theorem Knows.exists_index (h : t.Knows name) : ∃ index, t.nameIndex name = .ok index := by
  obtain ⟨i, hi⟩ := Option.isSome_iff_exists.1 (knows_iff.1 h)
  exact ⟨_, by rw [nameIndex, hi]; rfl⟩

/-- Names that are known have indices. -/
theorem exists_indices {names : List String} (h : ∀ n ∈ names, t.Knows n) :
    ∃ indices, names.mapM t.nameIndex = .ok indices := by
  induction names with
  | nil => exact ⟨[], rfl⟩
  | cons name names ih =>
    obtain ⟨hname, hnames⟩ := List.forall_mem_cons.1 h
    obtain ⟨index, hindex⟩ := hname.exists_index
    obtain ⟨indices, hindices⟩ := ih hnames
    exact ⟨index :: indices, by rw [List.mapM_cons, hindex, hindices]; rfl⟩

/-- Those of some names that have an index need not be added. -/
theorem foldl_addMissing_missing (names : List String) {entries : List NameEntry}
    (hsub : t.names ⊆ entries) :
    ((names.filter fun n => (t.nameIndex? n).isNone).map fun n => ⟨n, implicitFlags⟩).foldl
        addMissing entries =
      (names.map fun n => ⟨n, implicitFlags⟩).foldl addMissing entries := by
  induction names generalizing entries with
  | nil => rfl
  | cons n names ih =>
    rw [List.map_cons, List.foldl_cons]
    have hgrown : t.names ⊆ addMissing entries ⟨n, implicitFlags⟩ :=
      List.Subset.trans hsub (namesAdded_foldl [⟨n, implicitFlags⟩] entries).isPrefix.subset
    cases hn : t.nameIndex? n with
    | none =>
      rw [List.filter_cons_of_pos (by rw [hn]; rfl), List.map_cons, List.foldl_cons, ih hgrown]
    | some i =>
      obtain ⟨x, hx, hsame⟩ : t.Knows n := knows_iff.2 (by rw [hn]; rfl)
      have hthere : entries.any (NameEntry.sameAs ⟨n, implicitFlags⟩) = true :=
        List.any_eq_true.2 ⟨x, hsub hx, (sameName_comm _ _).trans hsame⟩
      rw [List.filter_cons_of_neg (by rw [hn]; exact nofun), addMissing, if_pos hthere, ih hsub]

/-! ## Dotted names that are known -/

/-- The indices of the parts of a dotted name, the last one apart. -/
structure NamePath (t : Tables) (name : String) where
  path : List NameIndex
  last : NameIndex
  path_eq : (segments name).dropLast.mapM t.nameIndex = .ok path
  last_eq : t.nameIndex ((segments name).getLastD "") = .ok last

theorem exists_namePath (h : ∀ n ∈ segments name, t.Knows n) : Nonempty (t.NamePath name) := by
  obtain ⟨path, hpath⟩ := exists_indices fun n hn => h n (List.dropLast_subset _ hn)
  obtain ⟨last, hlast⟩ := (h _ (getLastD_mem_segments name)).exists_index
  exact ⟨⟨path, last, hpath, hlast⟩⟩

namespace NamePath

variable {n : Nat} (w : t.NamePath name)

theorem segments_eq : (segments name).mapM t.nameIndex = .ok (w.path ++ [w.last]) := by
  rw [← segments_dropLast_getLastD name, List.mapM_append, w.path_eq, List.mapM_cons, w.last_eq]
  rfl

theorem length_path : w.path.length + 1 = (segments name).length := by
  have hlength := length_of_mapM_eq_ok w.path_eq
  have hpos := List.length_pos_iff.2 (segments_ne_nil name)
  rw [List.length_dropLast] at hlength
  omega

theorem take_eq (hn : n ≤ w.path.length) :
    ((segments name).take n).mapM t.nameIndex = .ok (w.path.take n) := by
  have htake := mapM_take w.segments_eq n
  rwa [List.take_append_of_le_length hn] at htake

end NamePath

/-! ## Entries with known names -/

/-- Packages are imported if their names are known. -/
theorem exists_packageImports (imports : List ImportEntry) (path : List String)
    (hclass : ∀ n ∈ packageClassNames, t.Knows n) (hpath : ∀ n ∈ path, t.Knows n) :
    ∃ nested, t.packageImports imports path = .ok nested := by
  obtain ⟨hcore, hpackage, -⟩ := List.forall_mem_cons.1 hclass |>.imp_right List.forall_mem_cons.1
  obtain ⟨core, hcore⟩ := hcore.exists_index
  obtain ⟨package, hpackage⟩ := hpackage.exists_index
  obtain ⟨indices, hindices⟩ := exists_indices hpath
  exact ⟨_, by rw [packageImports, hcore, hpackage, hindices]; rfl⟩

/-- An import is made if its names are known. -/
theorem exists_importEntry {type : ClassPath} (outer : ObjectRef) (hpackage : t.Knows type.package)
    (hname : t.Knows type.name) (hobject : t.Knows name) :
    ∃ e, t.importEntry type outer name = .ok e := by
  obtain ⟨_, hpackage⟩ := hpackage.exists_index
  obtain ⟨_, hname⟩ := hname.exists_index
  obtain ⟨_, hobject⟩ := hobject.exists_index
  exact ⟨_, by rw [importEntry, hpackage, hname, hobject]; rfl⟩

/-- Imports are added if their names are known. -/
theorem exists_requestImports (force : Bool) (imports : List ImportEntry)
    {wanted : List ImportRequest}
    (h : ∀ n ∈ packageClassNames ++ wanted.flatMap ImportRequest.names, t.Knows n) :
    ∃ after, t.requestImports force imports wanted = .ok after := by
  induction wanted generalizing imports with
  | nil => exact ⟨imports, rfl⟩
  | cons r wanted ih =>
    have hclass : ∀ n ∈ packageClassNames, t.Knows n := fun n hn =>
      h n (List.mem_append_left _ hn)
    rw [List.flatMap_cons] at h
    have hnames : ∀ n ∈ r.names, t.Knows n := fun n hn =>
      h n (List.mem_append_right _ (List.mem_append_left _ hn))
    have hrest := fun imports => ih imports fun n hn =>
      (List.mem_append.1 hn).elim (hclass n) fun hn =>
        h n (List.mem_append_right _ (List.mem_append_right _ hn))
    have hpath : ∀ n ∈ (segments r.name).dropLast, t.Knows n := fun n hn =>
      hnames n (List.mem_append_left _ (List.dropLast_subset _ hn))
    obtain ⟨⟨nested, outer⟩, hnested⟩ := exists_packageImports imports _ hclass hpath
    obtain ⟨e, he⟩ := exists_importEntry outer
      (hnames _ (List.mem_append_right _ List.mem_cons_self))
      (hnames _ (List.mem_append_right _ (List.mem_cons_of_mem _ List.mem_cons_self)))
      (hnames _ (List.mem_append_left _ (getLastD_mem_segments r.name)))
    obtain ⟨after, hafter⟩ := hrest (if force || !nested.contains e then nested ++ [e] else nested)
    refine ⟨after, ?_⟩
    rw [requestImports]
    exact except_bind_eq_ok.2 ⟨_, hnested, except_bind_eq_ok.2 ⟨e, he, hafter⟩⟩

end Tables

end UnrealPackage
