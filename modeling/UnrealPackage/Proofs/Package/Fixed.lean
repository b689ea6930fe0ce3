import UnrealPackage.Proofs.Package.Exports
/-!
# Packages whose tables cannot be changed

Every change of the tables ends in a relocation. `Package.Fixed p` says that none does anything,
whatever it is to store: the package may only be read (`fixed_of_readOnly`), or it has no payload
behind which the tables could be put (`fixed_of_dataEnd`). The changes of the tables then leave the
package as it is, however many steps they take and however far they get.
-/

namespace UnrealPackage

namespace Change

variable {α β : Type} {c : Change α} {f : α → Change β} {p : Package}

/-- Two steps leave the package as it is if each of them does. -/
theorem same_bind (hc : (c p).2 = p) (hf : ∀ a, (f a p).2 = p) : ((c >>= f) p).2 = p :=
  after_bind (P := fun q => q = p) hc fun a _ _ hp' => hp'.symm ▸ hf a

/-- A step that only looks leaves the package as it is if the next one does. -/
theorem same_gets {g : Package → Except Error α} (hf : ∀ a, (f a p).2 = p) :
    ((gets g >>= f) p).2 = p :=
  same_bind rfl hf

theorem same_lift {x : Except Error α} (hf : ∀ a, (f a p).2 = p) :
    ((MonadLiftT.monadLift x >>= f : Change β) p).2 = p :=
  same_gets (g := fun _ => x) hf

theorem ensureWritable_error (hw : p.options.writable = false) :
    ensureWritable p = (.error .readOnly, p) := by
  simp only [ensureWritable, gets, hw, Bool.false_eq_true, if_false]
  rfl

/-- A change that asks first whether the package may be written leaves one that may not as it is. -/
theorem same_ensureWritable {f : Unit → Change β} (hw : p.options.writable = false) :
    ((ensureWritable >>= f) p).2 = p := by
  rw [bind_error (ensureWritable_error hw)]

end Change

namespace Package

/-- No tables and payloads can be stored. -/
def Fixed (p : Package) : Prop :=
  ∀ t payloads, (Change.relocate t payloads p).2 = p

variable {p : Package}

theorem fixed_of_readOnly (hw : p.options.writable = false) : p.Fixed :=
  fun _ _ => Change.same_ensureWritable hw

theorem fixed_of_dataEnd {e : Error} (hw : p.options.writable = true) (hd : p.dataEnd = .error e) :
    p.Fixed := by
  intro t payloads
  rw [Change.relocate_error hw hd]

namespace Fixed

open Change

theorem relocateTables (h : p.Fixed) (edit : Tables → Tables) :
    (Change.relocateTables edit p).2 = p := by
  rw [relocateTables_eq]
  exact h _ _

/-! ## Names -/

theorem updateNames (h : p.Fixed) (edit : List NameEntry → List NameEntry) :
    (Change.updateNames edit p).2 = p :=
  h.relocateTables _

/-- Names cannot be added where no tables can be stored. -/
theorem addNames (h : p.Fixed) (entries : List NameEntry) :
    (Change.addNames entries p).2 = p := by
  rw [Change.addNames, bind_look]
  dsimp only
  split
  · exact same_bind (h.updateNames _) fun _ => rfl
  · rfl

theorem updateName (h : p.Fixed) (index : Nat) (e : NameEntry) :
    (Change.updateName index e p).2 = p :=
  same_gets fun _ => h.updateNames _

theorem ensureNames (h : p.Fixed) (names : List String) : (Change.ensureNames names p).2 = p := by
  rw [Change.ensureNames, bind_look]
  split
  · exact same_bind (h.addNames _) fun _ => rfl
  · rfl

/-! ## Imports -/

theorem updateImports (h : p.Fixed) (edit : List ImportEntry → List ImportEntry) :
    (Change.updateImports edit p).2 = p :=
  h.relocateTables _

/-- Imports cannot be added where no tables can be stored. -/
theorem addImports (h : p.Fixed) (requests : List (String × String)) (force : Bool) :
    (Change.addImports requests force p).2 = p := by
  have hprepare : (Change.prepareImports requests p).2 = p :=
    same_lift fun _ => same_bind (h.ensureNames _) fun _ => rfl
  refine same_bind hprepare fun wanted => same_gets fun before => same_gets fun after => ?_
  split
  · exact h.updateImports _
  · rfl

theorem renameImport (h : p.Fixed) (index : Nat) (name : String) :
    (Change.renameImport index name p).2 = p := by
  have hprepare : (Change.prepareRename index name p).2 = p :=
    same_gets fun _ => h.ensureNames _
  exact same_bind hprepare fun _ => same_gets fun _ => same_gets fun _ => h.updateImports _

theorem changeImportClass (h : p.Fixed) (index : Nat) (type : String) :
    (Change.changeImportClass index type p).2 = p := by
  have hprepare : (Change.prepareClass index type p).2 = p :=
    same_gets fun _ => same_lift fun _ => same_bind (h.ensureNames _) fun _ => rfl
  exact same_bind hprepare fun _ => same_gets fun _ => same_gets fun _ => h.updateImports _

/-- A class cannot be imported where no tables can be stored. -/
theorem classReference (h : p.Fixed) (name : String) : (Change.classReference name p).2 = p := by
  rw [Change.classReference]
  split
  · rfl
  · refine same_gets fun found => ?_
    split
    · exact same_bind (h.addImports _ _) fun _ => rfl
    · rfl

/-! ## Exports -/

theorem updateExports (h : p.Fixed) (edit : List ExportEntry → List ExportEntry) :
    (Change.updateExports edit p).2 = p :=
  h.relocateTables _

/-- An export cannot be put among others where no tables can be stored. -/
theorem insertExport (h : p.Fixed) (r : ExportRequest) (type super packageType : ObjectRef) :
    (Change.insertExport r type super packageType p).2 = p := by
  rcases insertExport_cases p r type super packageType with
    ⟨e, hrun, -⟩ | ⟨i, hrun⟩ | ⟨_, _, _, -, -, hrun⟩
  · rw [hrun]
  · rw [hrun]
  · rw [hrun]
    exact same_bind (h _ _) fun _ => rfl

/-- An export cannot be added where no tables can be stored. -/
theorem addExport (h : p.Fixed) (r : ExportRequest) : (Change.addExport r p).2 = p := by
  have hprepare : (Change.prepareExport r p).2 = p := by
    refine same_bind (h.ensureNames _) fun _ => same_bind (h.classReference _) fun type =>
      same_bind (h.classReference _) fun super => ?_
    split
    · exact same_bind (h.classReference _) fun _ => rfl
    · rfl
  exact same_bind hprepare fun _ => h.insertExport r _ _ _

end Fixed

end Package

end UnrealPackage
