import UnrealPackage.Proofs.Package.Exports
import UnrealPackage.Proofs.Tables.Meaning
import UnrealPackage.Proofs.Tables.Requests
/-!
# Packages whose tables can be changed

`Package.Ready p stored` is a package that keeps its payloads and has one behind which the tables
can be put. A relocation then succeeds as long as the image stays small enough, and leaves such a
package behind, so a change of several steps can only fail in what it looks up between them.

It never does: the names that it added are known from then on (`Tables.Knows`), and the class that
it imported is found by its full name. `Ready.addImports`, `Ready.renameImport`,
`Ready.changeImportClass` and `Ready.addExport` say so.
-/

namespace UnrealPackage

open Decode

/-! ## Relocations succeed -/

namespace Package

/-- A package that keeps its payloads and has one behind which tables can be put. -/
structure Ready (p : Package) (stored : List (List UInt8)) : Prop where
  intact : p.Intact stored
  block : ∃ position, p.dataEnd = .ok position

/-- From `p` on, the change succeeds, leaves a package that can be changed again, and forgets no
name. -/
def Succeeds (stored : List (List UInt8)) (c : Change α) (p : Package)
    (post : α → Package → Prop) : Prop :=
  ∃ a p', c p = (.ok a, p') ∧ p'.Ready stored ∧ p.tables.names ⊆ p'.tables.names ∧ post a p'

variable {p : Package} {stored : List (List UInt8)}

/-- Tables can be put behind the payloads if one of them is not empty. -/
theorem Intact.ready (h : p.Intact stored) (hsized : ∃ e ∈ p.tables.exports, 0 < e.size.toInt) :
    p.Ready stored := by
  obtain ⟨e, he, hpos⟩ := hsized
  have hmem : (e.start, e.start + e.size.toInt.toNat) ∈ p.dataRanges :=
    List.mem_filterMap.2 ⟨e, he, ExportEntry.dataRange?_eq_some.2 ⟨hpos, rfl⟩⟩
  refine ⟨h, ?_⟩
  rw [dataEnd]
  cases hmax : (p.dataRanges.map Prod.snd).max? with
  | some position => exact ⟨position, rfl⟩
  | none =>
    rw [List.max?_eq_none_iff, List.map_eq_nil_iff] at hmax
    rw [hmax] at hmem
    cases hmem

section Succeeds

variable {α β : Type} {c : Change α} {f : α → Change β} {post : α → Package → Prop}
  {post' : β → Package → Prop}

theorem Succeeds.mono (h : Succeeds stored c p post) {weaker : α → Package → Prop}
    (hpost : ∀ a p', post a p' → weaker a p') : Succeeds stored c p weaker := by
  obtain ⟨a, p', hrun, hready, hnames, ha⟩ := h
  exact ⟨a, p', hrun, hready, hnames, hpost a p' ha⟩

/-- A step that succeeds on what another one left makes a change that succeeds. -/
theorem Succeeds.bind (hc : Succeeds stored c p post)
    (hf : ∀ a p', c p = (.ok a, p') → p'.Ready stored → p.tables.names ⊆ p'.tables.names →
      post a p' → Succeeds stored (f a) p' post') : Succeeds stored (c >>= f) p post' := by
  obtain ⟨a, p₁, hrun, hready, hnames, hpost⟩ := hc
  obtain ⟨b, p₂, hrun', hready', hnames', hpost'⟩ := hf a p₁ hrun hready hnames hpost
  exact ⟨b, p₂, (Change.bind_ok hrun).trans hrun', hready', List.Subset.trans hnames hnames',
    hpost'⟩

theorem Succeeds.gets {g : Package → Except Error α} {a : α}
    (hg : g p = .ok a) (hf : Succeeds stored (f a) p post') :
    Succeeds stored (Change.gets g >>= f) p post' := by
  obtain ⟨b, p', hrun, hready, hnames, hpost⟩ := hf
  exact ⟨b, p', (Change.bind_ok (Change.gets_ok hg)).trans hrun, hready, hnames, hpost⟩

theorem Ready.succeeds_pure (h : p.Ready stored) {a : α} (hpost : post a p) :
    Succeeds stored (pure a) p post :=
  ⟨a, p, rfl, h, List.Subset.refl _, hpost⟩

end Succeeds

namespace Ready

/-- Edits of the names and the imports are stored. -/
theorem relocateTables (h : p.Ready stored) {edit : Tables → Tables}
    (hpackage : (edit p.tables).package = p.tables.package)
    (hexports : (edit p.tables).exports = p.tables.exports)
    (hs : ∀ e ∈ (edit p.tables).names, StorableText e.name)
    (hsize : (Change.relocateTables edit p).2.image.length < 0x100000000) :
    ∃ p', Change.relocateTables edit p = (.ok (), p') ∧ p'.Ready stored ∧
      p'.tables = edit p.tables := by
  obtain ⟨position, hd⟩ := h.block
  rw [Change.relocateTables_eq] at hsize ⊢
  obtain ⟨p', hrun, htables, hintact⟩ := h.intact.relocate_ok hd hpackage hs
    (fun _ _ _ hp => hexports ▸ hp) (by simp) hsize
  refine ⟨p', hrun, ⟨hintact, position, ?_⟩, htables⟩
  have hsame : p'.tables.exports = p.tables.exports := by
    rw [htables]
    exact hexports
  rw [← hd, dataEnd, dataEnd, dataRanges, dataRanges, hsame]

/-- The names are edited, whatever the edit is, as long as they can be stored. -/
theorem updateNames (h : p.Ready stored) {edit : List NameEntry → List NameEntry}
    (hs : ∀ e ∈ edit p.tables.names, StorableText e.name)
    (hsize : (Change.updateNames edit p).2.image.length < 0x100000000) :
    ∃ p', Change.updateNames edit p = (.ok (), p') ∧ p'.Ready stored ∧
      p'.tables = { p.tables with names := edit p.tables.names } :=
  h.relocateTables rfl rfl hs hsize

/-- The imports are edited, whatever the edit is. -/
theorem updateImports (h : p.Ready stored) {edit : List ImportEntry → List ImportEntry}
    (hsize : (Change.updateImports edit p).2.image.length < 0x100000000) :
    Succeeds stored (Change.updateImports edit) p fun _ p' =>
      p'.tables = { p.tables with imports := edit p.tables.imports } := by
  obtain ⟨p', hrun, hready, htables⟩ := h.relocateTables rfl rfl h.intact.storable hsize
  exact ⟨(), p', hrun, hready, by rw [htables]; exact List.Subset.refl _, htables⟩

/-! ## Names -/

/-- The names that are missing are added, and nothing else. -/
theorem addNames (h : p.Ready stored) {entries : List NameEntry}
    (hs : ∀ e ∈ entries, StorableText e.name)
    (hsize : (Change.addNames entries p).2.image.length < 0x100000000) :
    Succeeds stored (Change.addNames entries) p fun _ p' =>
      p'.tables = { p.tables with names := entries.foldl addMissing p.tables.names } := by
  have hadds := namesAdded_foldl entries p.tables.names
  rw [Change.addNames, Change.bind_look] at hsize
  rw [Succeeds, Change.addNames, Change.bind_look]
  dsimp only at hsize ⊢
  generalize entries.foldl addMissing p.tables.names = after at hadds hsize ⊢
  have hnames : ∀ e ∈ after, StorableText e.name := hadds.forall_mem h.intact.storable hs
  split
  · next hadded =>
    rw [if_pos hadded, Change.after_bind_pure] at hsize
    obtain ⟨p', hrun, hready, htables⟩ := h.updateNames hnames hsize
    refine ⟨_, p', Change.bind_ok hrun, hready, ?_, htables⟩
    rw [htables]
    exact hadds.isPrefix.subset
  · next hadded =>
    -- nothing was missing
    have hsame : p.tables.names = after :=
      hadds.isPrefix.eq_of_length_le (by omega)
    exact ⟨_, p, rfl, h, List.Subset.refl _, by rw [← hsame]⟩

/-- The names that are missing are learned, and nothing happens if there are none. -/
theorem ensureNames (h : p.Ready stored) {names : List String}
    (hs : ∀ n ∈ names, StorableText n)
    (hsize : (Change.ensureNames names p).2.image.length < 0x100000000) :
    Succeeds stored (Change.ensureNames names) p fun _ p' => p'.tables = p.tables.learn names := by
  have hall := Tables.foldl_addMissing_missing names (List.Subset.refl p.tables.names)
  rw [Change.ensureNames, Change.bind_look] at hsize
  rw [Succeeds, Change.ensureNames, Change.bind_look]
  split
  · next hmissing =>
    rw [if_pos hmissing, Change.after_bind_pure] at hsize
    obtain ⟨a, p', hrun, hready, hnames, htables⟩ := h.addNames (fun e he => by
      obtain ⟨n, hn, rfl⟩ := List.mem_map.1 he
      exact hs n (List.mem_filter.1 hn).1) hsize
    refine ⟨(), p', Change.bind_ok hrun, hready, hnames, ?_⟩
    rw [htables, hall]
    rfl
  · next hmissing =>
    rw [Bool.not_eq_true, Bool.not_eq_false', List.isEmpty_iff] at hmissing
    rw [hmissing] at hall
    refine ⟨(), p, rfl, h, List.Subset.refl _, ?_⟩
    rw [Tables.learn, ← hall]
    rfl

/-! ## Imports -/

/-- The names of imports are learned, and the imports are told. -/
theorem prepareImports (h : p.Ready stored) {requests : List (String × String)}
    {wanted : List ImportRequest} (hwanted : importRequests requests = .ok wanted)
    (hs : ∀ x ∈ requests, StorableParts x.1 ∧ StorableParts x.2)
    (hsize : (Change.prepareImports requests p).2.image.length < 0x100000000) :
    Succeeds stored (Change.prepareImports requests) p fun found p' => found = wanted ∧
      p'.tables = p.tables.learn (packageClassNames ++ wanted.flatMap ImportRequest.names) := by
  rw [Change.prepareImports, Change.bind_ok (Change.lift_ok hwanted), Change.after_bind_pure]
    at hsize
  have hnames : ∀ n ∈ packageClassNames ++ wanted.flatMap ImportRequest.names, StorableText n :=
    fun n hn => (List.mem_append.1 hn).elim (storable_packageClassNames n)
      (storable_importRequests hwanted hs n)
  refine Succeeds.gets (g := fun _ => importRequests requests) hwanted ?_
  exact (h.ensureNames hnames hsize).bind fun _ p' _ h' _ hpost => h'.succeeds_pure ⟨rfl, hpost⟩

/-- Imports are added once their classes have been understood. -/
theorem addImports (h : p.Ready stored) {requests : List (String × String)} {force : Bool}
    {wanted : List ImportRequest} (hwanted : importRequests requests = .ok wanted)
    (hs : ∀ x ∈ requests, StorableParts x.1 ∧ StorableParts x.2)
    (hnames : (Change.prepareImports requests p).2.image.length < 0x100000000)
    (hsize : (Change.addImports requests force p).2.image.length < 0x100000000) :
    Succeeds stored (Change.addImports requests force) p fun _ p' =>
      ∃ t, t = p.tables.learn (packageClassNames ++ wanted.flatMap ImportRequest.names) ∧
        t.requestImports force t.imports wanted = .ok p'.tables.imports ∧
        p'.tables = { t with imports := p'.tables.imports } := by
  refine (h.prepareImports hwanted hs hnames).bind fun found p₁ hrun h₁ _ hpost => ?_
  obtain ⟨rfl, hlearned⟩ := hpost
  obtain ⟨after, hafter⟩ := Tables.exists_requestImports (t := p₁.tables) force p₁.tables.imports
    (hlearned ▸ Tables.knows_learn)
  rw [Change.addImports, Change.bind_ok hrun, Change.bind_look,
    Change.bind_ok (Change.gets_ok hafter)] at hsize
  refine Succeeds.gets rfl (Succeeds.gets hafter ?_)
  split
  · next hchanged =>
    rw [if_pos hchanged] at hsize
    refine (h₁.updateImports hsize).mono fun _ p' htables => ⟨p₁.tables, hlearned, ?_, ?_⟩
    · rw [hafter, htables]
    · rw [htables]
  · next hsame =>
    have hsame := Decidable.not_not.1 hsame
    exact h₁.succeeds_pure ⟨p₁.tables, hlearned, hsame ▸ hafter, rfl⟩

/-- An import is put under the packages of a dotted name once its names are there. -/
theorem renameImport (h : p.Ready stored) {index : Nat} {name : String} {e : ImportEntry}
    (he : p.tables.importAt index = .ok e) (hs : StorableParts name)
    (hnames : (Change.prepareRename index name p).2.image.length < 0x100000000)
    (hsize : (Change.renameImport index name p).2.image.length < 0x100000000) :
    Succeeds stored (Change.renameImport index name) p fun _ p' =>
      ∃ t, p.tables.Extends t ∧ ∃ w : t.ImportPath name, p'.tables = w.rename index := by
  have hprepare : Succeeds stored (Change.prepareRename index name) p fun _ p' =>
      p'.tables = p.tables.learn (packageClassNames ++ segments name) := by
    rw [Change.prepareRename, Change.bind_ok (Change.gets_ok he)] at hnames
    refine Succeeds.gets he (h.ensureNames (fun n hn => ?_) hnames)
    exact (List.mem_append.1 hn).elim (storable_packageClassNames n) (hs n)
  refine hprepare.bind fun _ p₁ hrun h₁ _ hlearned => ?_
  have hknown : ∀ n ∈ packageClassNames ++ segments name, p₁.tables.Knows n :=
    hlearned ▸ Tables.knows_learn
  obtain ⟨w⟩ := Tables.exists_importPath (fun n hn => hknown n (List.mem_append_left _ hn))
    fun n hn => hknown n (List.mem_append_right _ hn)
  rw [Change.renameImport, Change.bind_ok hrun,
    Change.bind_ok (Change.gets_ok w.packageImports_eq)] at hsize
  dsimp only at hsize
  rw [Change.bind_ok (Change.gets_ok w.last_eq)] at hsize
  exact Succeeds.gets w.packageImports_eq (Succeeds.gets w.last_eq
    ((h₁.updateImports hsize).mono fun _ _ htables =>
      ⟨_, hlearned ▸ p.tables.extends_learn _, w, htables⟩))

/-- An import that is there gets any class that can be understood. -/
theorem changeImportClass (h : p.Ready stored) {index : Nat} {type : String} {e : ImportEntry}
    {path : ClassPath} (he : p.tables.importAt index = .ok e)
    (hpath : ClassPath.ofName type = .ok path) (hs : StorableParts type)
    (hnames : (Change.prepareClass index type p).2.image.length < 0x100000000)
    (hsize : (Change.changeImportClass index type p).2.image.length < 0x100000000) :
    Succeeds stored (Change.changeImportClass index type) p fun _ _ => True := by
  obtain ⟨hpackage, hname⟩ := ClassPath.mem_segments_of_ofName hpath
  have hprepare : Succeeds stored (Change.prepareClass index type) p fun found p' =>
      found = path ∧ p'.tables = p.tables.learn [path.package, path.name] := by
    rw [Change.prepareClass, Change.bind_ok (Change.gets_ok he),
      Change.bind_ok (Change.lift_ok hpath), Change.after_bind_pure] at hnames
    refine Succeeds.gets he (Succeeds.gets (g := fun _ => ClassPath.ofName type) hpath ?_)
    refine (h.ensureNames (fun n hn => ?_) hnames).bind fun _ p' _ h' _ hpost =>
      h'.succeeds_pure ⟨rfl, hpost⟩
    rcases List.mem_cons.1 hn with rfl | hn
    · exact hs _ hpackage
    · exact List.mem_singleton.1 hn ▸ hs _ hname
  refine hprepare.bind fun found p₁ hrun h₁ _ hpost => ?_
  obtain ⟨rfl, hlearned⟩ := hpost
  have hknown : ∀ n ∈ [found.package, found.name], p₁.tables.Knows n :=
    hlearned ▸ Tables.knows_learn
  obtain ⟨classPackage, hclassPackage⟩ := (hknown _ List.mem_cons_self).exists_index
  obtain ⟨className, hclassName⟩ :=
    (hknown _ (List.mem_cons_of_mem _ List.mem_cons_self)).exists_index
  rw [Change.changeImportClass, Change.bind_ok hrun, Change.bind_ok (Change.gets_ok hclassPackage),
    Change.bind_ok (Change.gets_ok hclassName)] at hsize
  exact Succeeds.gets hclassPackage (Succeeds.gets hclassName
    ((h₁.updateImports hsize).mono fun _ _ _ => trivial))

/-! ## Exports -/

/-- The class that an import was made for is found. -/
theorem exists_classImport (h : p.Ready stored) {r : ImportRequest} {t : Tables}
    (hafter : t.requestImports false t.imports [r] = .ok p.tables.imports)
    (htables : p.tables = { t with imports := p.tables.imports }) :
    ∃ i, p.tables.findImport? r.name = some i := by
  have hprovides : p.tables.Provides p.tables.imports r :=
    (Tables.provides_of_requestImports hafter r List.mem_cons_self).congr (by rw [htables])
  obtain ⟨hn, himports, -⟩ := h.intact.length_tables_lt
  exact (hprovides.importsAs hn (Nat.le_of_lt himports)).exists_findImport?

/-- A reference for a name is there or is made, and what there was before is kept. -/
theorem classReference (h : p.Ready stored) {name : String} (hs : StorableParts name)
    (hnames : (Change.prepareReference name p).2.image.length < 0x100000000)
    (hsize : (Change.classReference name p).2.image.length < 0x100000000) :
    Succeeds stored (Change.classReference name) p fun r p' => p.tables.Grows p'.tables ∧
      p'.tables.exports = p.tables.exports ∧ p'.tables.Means name r := by
  revert hnames hsize
  rw [Change.prepareReference, Change.classReference]
  split
  · next hempty =>
    exact fun _ _ => h.succeeds_pure ⟨.refl _, rfl, .nothing (String.isEmpty_iff.1 hempty) rfl⟩
  next hempty =>
  have hne : name ≠ "" := fun hname => hempty (String.isEmpty_iff.2 hname)
  rw [Change.bind_look, Change.bind_look]
  intro hnames hsize
  refine Succeeds.gets rfl ?_
  split at hnames
  · next hnone =>
    rw [if_pos hnone] at hsize ⊢
    rw [Change.after_bind_pure] at hnames
    rw [Change.after_bind_eq fun _ _ => rfl] at hsize
    have hwanted : importRequests [(name, "Core.Class")] =
        .ok [⟨name, ⟨"Core", "Class"⟩⟩] := rfl
    refine (h.addImports hwanted (storable_classImport hs) hnames hsize).bind
      fun _ p₁ _ h₁ _ hpost => ?_
    obtain ⟨t, rfl, hafter, htables⟩ := hpost
    obtain ⟨i, hi⟩ := h₁.exists_classImport hafter htables
    obtain ⟨-, himports, -⟩ := h₁.intact.length_tables_lt
    refine ⟨.ofImport i, p₁, Change.gets_ok (by rw [hi]; rfl), h₁, List.Subset.refl _, ?_, ?_,
      Tables.means_ofImport (Nat.le_of_lt himports) hne hi⟩
    · rw [htables]
      exact Tables.grows_requestImports hafter
    · rw [htables]
      rfl
  · next hsome =>
    rw [if_neg hsome]
    obtain ⟨-, himports, hexports⟩ := h.intact.length_tables_lt
    exact h.succeeds_pure
      ⟨.refl _, rfl, Tables.means_referenceTo (Nat.le_of_lt himports) hexports hne hsome⟩

/-- Exports are stored that are still without their payloads, a last one and packages in front of
it. -/
theorem relocateDraft (h : p.Ready stored) {d : ExportDraft} {k : Nat} {emptyList : NameIndex}
    {data : List UInt8} (hd : ExportDraft.Pushed p.tables.exports d
      (List.replicate k (Encode.compact emptyList) ++ [data])) (hdata : data.length < 0x80000000)
    (hsize : (Change.relocate { p.tables with exports := d.exports } d.payloads p).2.image.length <
      0x100000000) :
    ∃ position p', Change.relocate { p.tables with exports := d.exports } d.payloads p =
        (.ok (), p') ∧
      p'.tables = Change.placedTables { p.tables with exports := d.exports } position d.payloads ∧
      p'.Intact (stored ++ (List.replicate k (Encode.compact emptyList) ++ [data])) := by
  obtain ⟨position, hposition⟩ := h.block
  obtain ⟨p', hrun, htables, hintact⟩ := h.intact.relocate_ok
    (t := { p.tables with exports := d.exports }) hposition rfl h.intact.storable
    (fun _ _ _ hp => hd.placed hp) (hd.length_lt hdata) hsize
  rw [hd.stored_eq h.intact.placed.length] at hintact
  exact ⟨position, p', hrun, htables, hintact⟩

/-- An export whose names are known is added. -/
theorem insertExport (h : p.Ready stored) {r : ExportRequest} {type super packageType : ObjectRef}
    (hknown : ∀ n ∈ noneName :: segments r.name, p.tables.Knows n)
    (hdata : r.data.length < 0x80000000)
    (hsize : (Change.insertExport r type super packageType p).2.image.length < 0x100000000) :
    ∃ i p', Change.insertExport r type super packageType p = (.ok i, p') := by
  rcases Change.insertExport_cases p r type super packageType with
    ⟨e, -, n, hn, e', herror⟩ | ⟨i, hrun⟩ | ⟨emptyList, k, d, hnone, hd, hrun⟩
  · obtain ⟨index, hindex⟩ := (hknown n hn).exists_index
    rw [hindex] at herror
    cases herror
  · exact ⟨i, p, hrun⟩
  · rw [hrun] at hsize ⊢
    rw [Change.after_bind_pure] at hsize
    obtain ⟨-, p', hp', -⟩ := h.relocateDraft hd hdata hsize
    exact ⟨_, p', Change.bind_ok hp'⟩

/-- The steps before an export is added succeed: they only add names and imports, after which its
names are known and there are references for its classes. -/
theorem prepareExport (h : p.Ready stored) {r : ExportRequest} (hname : StorableParts r.name)
    (htype : StorableParts r.type) (hsuper : StorableParts r.super)
    (hstages : ∀ c ∈ Change.exportStages r, (c p).2.image.length < 0x100000000) :
    Succeeds stored (Change.prepareExport r) p fun found p' => p.tables.Grows p'.tables ∧
      p'.tables.exports = p.tables.exports ∧ p'.tables.Serves r found.1 found.2.1 found.2.2 := by
  obtain ⟨hs₁, hs, -⟩ := Change.forall_exportStages
    (P := fun p => p.image.length < 0x100000000) hstages
  refine (h.ensureNames (storable_exportNames hname) hs₁).bind
    fun _ p₁ (hp₁ : Change.exportNames r p = _) h₁ _ hlearned => ?_
  have hgrows₁ : p.tables.Grows p₁.tables := hlearned ▸ p.tables.grows_learn _
  have hexports₁ : p₁.tables.exports = p.tables.exports := by
    rw [hlearned]
    rfl
  have hknown₁ : ∀ n ∈ noneName :: segments r.name, p₁.tables.Knows n := by
    have hknown : ∀ n ∈ noneName :: packageClassNames ++ segments r.name, p₁.tables.Knows n :=
      hlearned ▸ Tables.knows_learn
    intro n hn
    rcases List.mem_cons.1 hn with rfl | hn
    · exact hknown _ (List.mem_append_left _ List.mem_cons_self)
    · exact hknown n (List.mem_append_right _ hn)
  obtain ⟨hs₂, hs₃, hs⟩ := hs p₁ hp₁
  refine (h₁.classReference htype hs₂ hs₃).bind fun type p₂ hp₂ h₂ _ hpost₂ => ?_
  obtain ⟨hgrows₂, hexports₂, hmeans₂⟩ := hpost₂
  obtain ⟨hs₄, hs₅, hs⟩ := hs type p₂ hp₂
  refine (h₂.classReference hsuper hs₄ hs₅).bind fun super p₃ hp₃ h₃ _ hpost₃ => ?_
  obtain ⟨hgrows₃, hexports₃, hmeans₃⟩ := hpost₃
  have hgrows := hgrows₁.trans (hgrows₂.trans hgrows₃)
  have hexports := hexports₃.trans (hexports₂.trans hexports₁)
  have hknown₃ : ∀ n ∈ noneName :: segments r.name, p₃.tables.Knows n :=
    fun n hn => (hknown₁ n hn).mono (hgrows₂.trans hgrows₃).names.subset
  dsimp only
  split
  · next hnested =>
    obtain ⟨hs₆, hs₇⟩ := hs super p₃ hp₃ hnested
    refine (h₃.classReference (by decide) hs₆ hs₇).bind fun packageType p₄ _ h₄ _ hpost₄ => ?_
    obtain ⟨hgrows₄, hexports₄, hmeans₄⟩ := hpost₄
    refine h₄.succeeds_pure ⟨hgrows.trans hgrows₄, hexports₄.trans hexports, ?_⟩
    exact ⟨fun n hn => (hknown₃ n hn).mono hgrows₄.names.subset,
      (hmeans₂.grow hgrows₃).grow hgrows₄, hmeans₃.grow hgrows₄, fun _ => hmeans₄⟩
  · next hflat =>
    exact h₃.succeeds_pure ⟨hgrows, hexports, hknown₃, hmeans₂.grow hgrows₃, hmeans₃,
      fun hnested => absurd hnested hflat⟩

/-- An export is added, or one like it was there. -/
theorem addExport (h : p.Ready stored) {r : ExportRequest} (hname : StorableParts r.name)
    (htype : StorableParts r.type) (hsuper : StorableParts r.super)
    (hdata : r.data.length < 0x80000000)
    (hstages : ∀ c ∈ Change.exportStages r, (c p).2.image.length < 0x100000000)
    (hsize : (Change.addExport r p).2.image.length < 0x100000000) :
    ∃ i p', Change.addExport r p = (.ok i, p') := by
  obtain ⟨⟨type, super, packageType⟩, p₁, hrun, h₁, -, -, -, hserves⟩ :=
    h.prepareExport hname htype hsuper hstages
  rw [Change.addExport, Change.bind_ok hrun] at hsize ⊢
  exact h₁.insertExport hserves.knows hdata hsize

end Ready

end Package

end UnrealPackage
