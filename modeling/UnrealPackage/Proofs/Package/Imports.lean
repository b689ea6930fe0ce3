import UnrealPackage.Package.Imports
import UnrealPackage.Proofs.Package.Change
import UnrealPackage.Proofs.Text.Dotted
/-!
# What changes of imports keep

The changes of the import table add names first and imports afterwards, each by a relocation. So
what these two steps keep (`Change.Stable`) holds after all of it, whichever of the steps fails:
`Stable.addImports`, `Stable.renameImport` and `Stable.changeImportClass` say so, and
`Stable.classReference` where an export asks for a class.

The names that are added are parts of the dotted names that were given; `StorableParts` says of such
a name that each of its parts can be stored.
-/

namespace UnrealPackage

/-! ## Parts of dotted names -/

/-- Whether every part of a dotted name can be stored. -/
def StorableParts (name : String) : Prop :=
  ∀ part ∈ segments name, StorableText part

instance (name : String) : Decidable (StorableParts name) :=
  inferInstanceAs (Decidable (∀ part ∈ segments name, StorableText part))

/-- The dotted names of classes are those with two parts that are not empty. -/
theorem ClassPath.ofName_eq_ok {name : String} {type : ClassPath} : ofName name = .ok type ↔
    segments name = [type.package, type.name] ∧ type.package ≠ "" ∧ type.name ≠ "" := by
  rw [ofName]
  constructor
  · intro h
    split at h
    · next package short hsegments =>
      split at h
      · cases h
      · next hempty =>
        cases h
        rw [Bool.or_eq_true, not_or] at hempty
        exact ⟨hsegments, fun h => hempty.1 (String.isEmpty_iff.2 h),
          fun h => hempty.2 (String.isEmpty_iff.2 h)⟩
    · cases h
  · rintro ⟨hsegments, hpackage, hname⟩
    have hempty : ¬(type.package.isEmpty || type.name.isEmpty) = true := by
      rw [Bool.or_eq_true, not_or]
      exact ⟨fun h => hpackage (String.isEmpty_iff.1 h), fun h => hname (String.isEmpty_iff.1 h)⟩
    rw [hsegments]
    exact if_neg hempty

theorem ClassPath.mem_segments_of_ofName {name : String} {type : ClassPath}
    (h : ofName name = .ok type) : type.package ∈ segments name ∧ type.name ∈ segments name := by
  rw [(ofName_eq_ok.1 h).1]
  exact ⟨List.mem_cons_self, List.mem_cons_of_mem _ List.mem_cons_self⟩

theorem storable_packageClassNames : ∀ n ∈ packageClassNames, StorableText n := by
  decide

/-! ## Imports that are wanted -/

section Requests

variable {requests : List (String × String)} {wanted : List ImportRequest}

/-- The first of several pairs is understood, and so are the others. -/
theorem importRequests_cons {x : String × String} :
    importRequests (x :: requests) = .ok wanted ↔ ∃ type others,
      ClassPath.ofName x.2 = .ok type ∧ importRequests requests = .ok others ∧
        wanted = ⟨x.1, type⟩ :: others := by
  rw [importRequests, List.mapM_cons]
  constructor
  · intro h
    obtain ⟨r, hr, h⟩ := except_bind_eq_ok.1 h
    obtain ⟨others, hothers, h⟩ := except_bind_eq_ok.1 h
    obtain ⟨type, htype, hr⟩ := except_bind_eq_ok.1 hr
    cases hr
    cases h
    exact ⟨type, others, htype, hothers, rfl⟩
  · rintro ⟨type, others, htype, hothers, rfl⟩
    exact except_bind_eq_ok.2 ⟨_, except_bind_eq_ok.2 ⟨type, htype, rfl⟩,
      except_bind_eq_ok.2 ⟨others, hothers, rfl⟩⟩

/-- Requests can be understood if their classes can. -/
theorem exists_importRequests (h : ∀ x ∈ requests, ∃ type, ClassPath.ofName x.2 = .ok type) :
    ∃ wanted, importRequests requests = .ok wanted := by
  induction requests with
  | nil => exact ⟨[], rfl⟩
  | cons x requests ih =>
    obtain ⟨⟨type, htype⟩, h⟩ := List.forall_mem_cons.1 h
    obtain ⟨others, hothers⟩ := ih h
    exact ⟨_, importRequests_cons.2 ⟨type, others, htype, hothers, rfl⟩⟩

/-- What each of the pairs stands for. -/
theorem mem_importRequests (h : importRequests requests = .ok wanted) :
    ∀ x ∈ requests, ∃ type, ClassPath.ofName x.2 = .ok type ∧ ⟨x.1, type⟩ ∈ wanted := by
  induction requests generalizing wanted with
  | nil => exact nofun
  | cons x requests ih =>
    obtain ⟨type, others, htype, hothers, rfl⟩ := importRequests_cons.1 h
    refine List.forall_mem_cons.2 ⟨⟨type, htype, List.mem_cons_self⟩, fun y hy => ?_⟩
    obtain ⟨type', htype', hmem⟩ := ih hothers y hy
    exact ⟨type', htype', List.mem_cons_of_mem _ hmem⟩

/-- The names that imports need are the parts of those that were asked for. -/
theorem names_importRequests (h : importRequests requests = .ok wanted) :
    wanted.flatMap ImportRequest.names =
      requests.flatMap fun x => segments x.1 ++ segments x.2 := by
  induction requests generalizing wanted with
  | nil =>
    cases h
    rfl
  | cons x requests ih =>
    obtain ⟨type, others, htype, hothers, rfl⟩ := importRequests_cons.1 h
    rw [List.flatMap_cons, List.flatMap_cons, ih hothers, ImportRequest.names,
      (ClassPath.ofName_eq_ok.1 htype).1]

/-- The names that requests need can be stored if the parts of their names can. -/
theorem storable_importRequests (h : importRequests requests = .ok wanted)
    (hs : ∀ x ∈ requests, StorableParts x.1 ∧ StorableParts x.2) :
    ∀ n ∈ wanted.flatMap ImportRequest.names, StorableText n := by
  rw [names_importRequests h]
  intro n hn
  obtain ⟨x, hx, hn⟩ := List.mem_flatMap.1 hn
  obtain ⟨hs₁, hs₂⟩ := hs x hx
  exact (List.mem_append.1 hn).elim (hs₁ n) (hs₂ n)

end Requests

namespace Change

/-- Additions of names and edits of the imports keep the property. -/
structure Stable (P : Package → Prop) : Prop where
  addNames {p : Package} {entries : List NameEntry} : P p →
    (∀ e ∈ entries, StorableText e.name) → Keeps P (addNames entries) p
  updateImports {p : Package} {edit : List ImportEntry → List ImportEntry} : P p →
    Keeps P (updateImports edit) p

/-- The part of `classReference` up to the names that are added for an import. -/
def prepareReference (name : String) : Change Unit := do
  if name.isEmpty then pure ()
  else
    let found ← gets fun p => pure (p.tables.referenceTo name)
    if found.isNone then
      let _ ← prepareImports [(name, "Core.Class")]

end Change

theorem storable_classImport {name : String} (hs : StorableParts name) :
    ∀ x ∈ [(name, "Core.Class")], StorableParts x.1 ∧ StorableParts x.2 := by
  intro x hx
  obtain rfl := List.mem_singleton.1 hx
  exact ⟨hs, (by decide : StorableParts "Core.Class")⟩

namespace Change.Stable

variable {P : Package → Prop} {p : Package}

/-- Names that are needed are added, which keeps what additions of names keep. -/
theorem ensureNames (hP : Stable P) (h : P p) {names : List String}
    (hs : ∀ n ∈ names, StorableText n) : Keeps P (Change.ensureNames names) p := by
  rw [Change.ensureNames, keeps_look]
  split
  · rw [keeps_bind_pure]
    refine hP.addNames h fun e he => ?_
    obtain ⟨n, hn, rfl⟩ := List.mem_map.1 he
    exact hs n (List.mem_filter.1 hn).1
  · exact keeps_pure h _

/-! ## Adding -/

/-- The names of imports are added, which keeps what additions of names keep. -/
theorem prepareImports (hP : Stable P) (h : P p) {requests : List (String × String)}
    (hs : ∀ x ∈ requests, StorableParts x.1 ∧ StorableParts x.2) :
    Keeps P (Change.prepareImports requests) p := by
  refine keeps_lift h fun wanted hwanted => ?_
  rw [keeps_bind_pure]
  refine hP.ensureNames h fun n hn => ?_
  rcases List.mem_append.1 hn with hn | hn
  · exact storable_packageClassNames n hn
  · exact storable_importRequests hwanted hs n hn

/-- Imports are added by additions of names and edits of imports. -/
theorem addImports (hP : Stable P) (h : P p) {requests : List (String × String)} {force : Bool}
    (hs : ∀ x ∈ requests, StorableParts x.1 ∧ StorableParts x.2)
    (hnames : (Change.prepareImports requests p).2.image.length < 0x100000000) :
    Keeps P (Change.addImports requests force) p := by
  refine keeps_bind (hP.prepareImports h hs hnames) fun wanted p' _ h' => ?_
  rw [keeps_look]
  refine keeps_gets h' fun after _ => ?_
  split
  · exact hP.updateImports h'
  · exact keeps_pure h' _

/-! ## Renaming -/

/-- The names of a renaming are added, which keeps what additions of names keep. -/
theorem prepareRename (hP : Stable P) (h : P p) {index : Nat} {name : String}
    (hs : StorableParts name) : Keeps P (Change.prepareRename index name) p := by
  refine keeps_gets h fun _ _ => hP.ensureNames h fun n hn => ?_
  rcases List.mem_append.1 hn with hn | hn
  · exact storable_packageClassNames n hn
  · exact hs n hn

/-- A renaming is made of additions of names and an edit of the imports. -/
theorem renameImport (hP : Stable P) (h : P p) {index : Nat} {name : String}
    (hs : StorableParts name)
    (hnames : (Change.prepareRename index name p).2.image.length < 0x100000000) :
    Keeps P (Change.renameImport index name) p := by
  refine keeps_bind (hP.prepareRename h hs hnames) fun _ p' _ h' => ?_
  exact keeps_gets h' fun _ _ => keeps_gets h' fun _ _ => hP.updateImports h'

/-- The names of a class are added, which keeps what additions of names keep. -/
theorem prepareClass (hP : Stable P) (h : P p) {index : Nat} {type : String}
    (hs : StorableParts type) : Keeps P (Change.prepareClass index type) p := by
  refine keeps_gets h fun _ _ => keeps_lift h fun path hpath => ?_
  obtain ⟨hpackage, hname⟩ := ClassPath.mem_segments_of_ofName hpath
  rw [keeps_bind_pure]
  refine hP.ensureNames h fun n hn => ?_
  rcases List.mem_cons.1 hn with rfl | hn
  · exact hs _ hpackage
  · exact List.mem_singleton.1 hn ▸ hs _ hname

/-- An import gets another class by an addition of names and an edit of the imports. -/
theorem changeImportClass (hP : Stable P) (h : P p) {index : Nat} {type : String}
    (hs : StorableParts type)
    (hnames : (Change.prepareClass index type p).2.image.length < 0x100000000) :
    Keeps P (Change.changeImportClass index type) p := by
  refine keeps_bind (hP.prepareClass h hs hnames) fun _ p' _ h' => ?_
  exact keeps_gets h' fun _ _ => keeps_gets h' fun _ _ => hP.updateImports h'

/-! ## Classes of exports -/

/-- A class that is not there is imported, which keeps what such changes keep. -/
theorem classReference (hP : Stable P) (h : P p) {name : String} (hs : StorableParts name)
    (hnames : (Change.prepareReference name p).2.image.length < 0x100000000) :
    Keeps P (Change.classReference name) p := by
  revert hnames
  rw [Change.prepareReference, Change.classReference]
  split
  · exact fun _ => keeps_pure h _
  · rw [bind_look, keeps_look]
    split
    · rw [after_bind_pure, keeps_bind_eq fun _ _ => rfl]
      exact hP.addImports h (storable_classImport hs)
    · exact fun _ => keeps_pure h _

end Change.Stable

end UnrealPackage
