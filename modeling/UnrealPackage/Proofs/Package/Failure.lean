import UnrealPackage.Proofs.Package.Fixed
import UnrealPackage.Proofs.Package.Ready
import UnrealPackage.Proofs.Package.Run
/-!
# A call that fails changes nothing

`Change.Atomic c p`: if the change fails, it leaves the package as it was. Calls of several steps
are atomic for one of two reasons. If the tables cannot be changed, no step does anything
(`Package.Fixed`). If they can, a call fails before its first step, or not at all (`Package.Ready`).

`Draft.failure_changes_nothing` says so of every call on every package that a run reaches, as long
as names, payloads and images stay within the limits of the format, and that no call writes to a
package that was opened for reading.
-/

namespace UnrealPackage

namespace Change

/-! ## Atomic changes -/

/-- If the change fails, the package is what it was. -/
def Atomic (c : Change α) (p : Package) : Prop :=
  ∀ e, (c p).1 = .error e → (c p).2 = p

variable {α β : Type} {c : Change α} {f : α → Change β} {p p' : Package} {a : α}

theorem atomic_of_same (h : (c p).2 = p) : Atomic c p :=
  fun _ _ => h

theorem atomic_of_ok (h : c p = (.ok a, p')) : Atomic c p := by
  intro e he
  rw [h] at he
  cases he

/-- A change that begins with a look is atomic if the rest is. -/
theorem atomic_gets {g : Package → Except Error α} (hf : ∀ a, g p = .ok a → Atomic (f a) p) :
    Atomic (gets g >>= f) p := by
  cases hg : g p with
  | error e =>
    refine atomic_of_same ?_
    rw [bind_error (gets_error hg)]
  | ok a =>
    rw [Atomic, bind_ok (gets_ok hg)]
    exact hf a hg

/-! ## The header -/

theorem atomic_setField (position : Nat) (data : List UInt8) (set : Header → Header) :
    Atomic (setField position data set) p :=
  atomic_gets fun _ _ => atomic_of_ok rfl

theorem atomic_setGenerations (generations : List Generation) :
    Atomic (setGenerations generations) p :=
  atomic_gets fun _ _ => atomic_gets fun _ _ => atomic_setField _ _ _

end Change

/-- The call writes over what there is; only a payload that gets longer is put elsewhere. -/
def Mutation.inPlace : Mutation → Bool
  | setExportData .. | setVersion _ | setLicensee _ | setFlags _ | setGuid _
  | setGenerations _ => true
  | _ => false

open Change

namespace Package

variable {p : Package} {stored : List (List UInt8)}

theorem Succeeds.atomic {α : Type} {c : Change α} {post : α → Package → Prop}
    (h : Succeeds stored c p post) : Atomic c p := by
  obtain ⟨a, p', hrun, -⟩ := h
  exact atomic_of_ok hrun

/-! ## Calls that look something up first -/

namespace Ready

variable {index : Nat} {name type : String} {e : NameEntry} {force : Bool}

/-- A name is replaced where there is one at the index, or nothing is done. -/
theorem atomic_updateName (h : p.Ready stored) (hs : StorableText e.name)
    (hsize : (Change.updateName index e p).2.image.length < 0x100000000) :
    Atomic (Change.updateName index e) p := by
  refine atomic_gets fun _ hindex => ?_
  rw [Change.updateName, bind_ok (gets_ok hindex)] at hsize
  obtain ⟨p', hrun, -⟩ := h.updateNames (storable_set h.intact.storable hs) hsize
  exact atomic_of_ok hrun

/-- Imports are added where all their classes can be understood, or nothing is done. -/
theorem atomic_addImports (h : p.Ready stored) {requests : List (String × String)}
    (hs : ∀ x ∈ requests, StorableParts x.1 ∧ StorableParts x.2)
    (hnames : (Change.prepareImports requests p).2.image.length < 0x100000000)
    (hsize : (Change.addImports requests force p).2.image.length < 0x100000000) :
    Atomic (Change.addImports requests force) p := by
  cases hwanted : importRequests requests with
  | error e =>
    have hprepare : Change.prepareImports requests p = (.error e, p) := by
      rw [Change.prepareImports, bind_error (lift_error hwanted)]
    refine atomic_of_same ?_
    rw [Change.addImports, bind_error hprepare]
  | ok wanted => exact (h.addImports hwanted hs hnames hsize).atomic

/-- An import is renamed where there is one at the index, or nothing is done. -/
theorem atomic_renameImport (h : p.Ready stored) (hs : StorableParts name)
    (hnames : (Change.prepareRename index name p).2.image.length < 0x100000000)
    (hsize : (Change.renameImport index name p).2.image.length < 0x100000000) :
    Atomic (Change.renameImport index name) p := by
  cases he : p.tables.importAt index with
  | error e =>
    have hprepare : Change.prepareRename index name p = (.error e, p) := by
      rw [Change.prepareRename, bind_error (gets_error he)]
    refine atomic_of_same ?_
    rw [Change.renameImport, bind_error hprepare]
  | ok e => exact (h.renameImport he hs hnames hsize).atomic

/-- An import gets another class where there is one at the index and the class can be understood, or
nothing is done. -/
theorem atomic_changeImportClass (h : p.Ready stored) (hs : StorableParts type)
    (hnames : (Change.prepareClass index type p).2.image.length < 0x100000000)
    (hsize : (Change.changeImportClass index type p).2.image.length < 0x100000000) :
    Atomic (Change.changeImportClass index type) p := by
  have hfailed : ∀ e, Change.prepareClass index type p = (.error e, p) →
      Atomic (Change.changeImportClass index type) p := by
    intro e hprepare
    refine atomic_of_same ?_
    rw [Change.changeImportClass, bind_error hprepare]
  cases he : p.tables.importAt index with
  | error e =>
    refine hfailed e ?_
    rw [Change.prepareClass, bind_error (gets_error he)]
  | ok entry =>
    cases hpath : ClassPath.ofName type with
    | error e =>
      refine hfailed e ?_
      rw [Change.prepareClass, bind_ok (gets_ok he), bind_error (lift_error hpath)]
    | ok path => exact (h.changeImportClass he hpath hs hnames hsize).atomic

end Ready

/-- Replacing a payload is atomic whether the tables can be changed or not. -/
theorem Intact.atomic_setExportData (h : p.Intact stored) {index : Nat} {data : List UInt8}
    (hdata : data.length < 0x80000000)
    (hsize : (Change.setExportData index data p).2.image.length < 0x100000000) :
    Atomic (Change.setExportData index data) p := by
  rcases h.setExportData hdata hsize with ⟨e, hrun⟩ | ⟨p', hrun, -⟩
  · refine atomic_of_same ?_
    rw [hrun]
  · exact atomic_of_ok hrun

/-! ## One call -/

variable {m : Mutation}

/-- Calls that write over what there is do so, or nothing. -/
theorem Intact.atomic_inPlace (h : p.Intact stored) (hm : m.inPlace = true) (hfits : m.Fits p) :
    Atomic m.change p := by
  cases m with
  | setExportData index data =>
    exact h.atomic_setExportData (hfits.payloads _ List.mem_cons_self) hfits.size
  | setVersion version => exact atomic_setField _ _ _
  | setLicensee licensee => exact atomic_setField _ _ _
  | setFlags flags => exact atomic_setField _ _ _
  | setGuid guid => exact atomic_setField _ _ _
  | setGenerations generations => exact atomic_setGenerations generations
  | _ => cases hm

/-- Every call that stays within the limits is atomic where the tables can be changed. -/
theorem Ready.atomic (h : p.Ready stored) (hfits : m.Fits p) : Atomic m.change p := by
  have hsize := hfits.size
  have htexts := hfits.texts
  have hstages := hfits.stages
  cases m with
  | addNames entries =>
    simp only [Mutation.change, after_bind_pure] at hsize ⊢
    obtain ⟨_, _, hrun, -⟩ := h.addNames (fun e he => htexts _ (List.mem_map_of_mem he)) hsize
    exact atomic_of_ok (bind_ok hrun)
  | updateName index e => exact h.atomic_updateName (htexts _ List.mem_cons_self) hsize
  | updateNames edit =>
    obtain ⟨_, hrun, -⟩ := h.updateNames (fun e he => htexts _ (List.mem_map_of_mem he)) hsize
    exact atomic_of_ok hrun
  | updateImports edit => exact (h.updateImports hsize).atomic
  | addImports requests force =>
    have hnames := hstages _ List.mem_cons_self
    rw [after_bind_pure] at hnames
    exact h.atomic_addImports hfits.requests hnames hsize
  | renameImport index name =>
    exact h.atomic_renameImport htexts (hstages _ List.mem_cons_self) hsize
  | changeImportClass index type =>
    have hnames := hstages _ List.mem_cons_self
    rw [after_bind_pure] at hnames
    exact h.atomic_changeImportClass htexts hnames hsize
  | addExport r =>
    simp only [Mutation.change, after_bind_pure] at hsize ⊢
    obtain ⟨hname, htype, hsuper⟩ := hfits.exportTexts
    obtain ⟨_, _, hrun⟩ := h.addExport hname htype hsuper (hfits.payloads _ List.mem_cons_self)
      hstages hsize
    exact atomic_of_ok (bind_ok hrun)
  | _ => exact h.intact.atomic_inPlace rfl hfits

/-- A call that changes the tables does nothing where they cannot be changed. -/
theorem Fixed.same_change (h : p.Fixed) (hm : m.inPlace = false) : (m.change p).2 = p := by
  cases m with
  | addNames entries => exact same_bind (h.addNames entries) fun _ => rfl
  | updateName index e => exact h.updateName index e
  | updateNames edit => exact h.updateNames edit
  | updateImports edit => exact h.updateImports edit
  | addImports requests force => exact h.addImports requests force
  | renameImport index name => exact h.renameImport index name
  | changeImportClass index type => exact h.changeImportClass index type
  | addExport r => exact same_bind (h.addExport r) fun _ => rfl
  | _ => cases hm

/-- Every call that stays within the limits is atomic. -/
theorem Intact.atomic (h : p.Intact stored) (hfits : m.Fits p) : Atomic m.change p := by
  cases hd : p.dataEnd with
  | ok position => exact Ready.atomic ⟨h, position, hd⟩ hfits
  | error e =>
    cases hm : m.inPlace with
    | true => exact h.atomic_inPlace hm hfits
    | false => exact atomic_of_same ((fixed_of_dataEnd h.writable hd).same_change hm)

/-- No call changes a package that may only be read. -/
theorem same_of_readOnly (hw : p.options.writable = false) (m : Mutation) :
    (m.change p).2 = p := by
  cases hm : m.inPlace with
  | false => exact (fixed_of_readOnly hw).same_change hm
  | true =>
    cases m with
    | setExportData index data => exact same_ensureWritable hw
    | setVersion version => exact same_ensureWritable hw
    | setLicensee licensee => exact same_ensureWritable hw
    | setFlags flags => exact same_ensureWritable hw
    | setGuid guid => exact same_ensureWritable hw
    | setGenerations generations => exact same_ensureWritable hw
    | _ => cases hm

end Package

/-! ## Runs -/

/-- A package that was opened for reading stays what it is along a run. -/
theorem Reaches.same_of_readOnly {start p : Package} {first stored : List (List UInt8)}
    (hrun : Reaches start first p stored) (hw : start.options.writable = false) : p = start := by
  induction hrun with
  | refl => rfl
  | step m _ _ ih =>
    subst ih
    exact Package.same_of_readOnly hw m

/-- A call that may write to the image. -/
inductive Call
  | mutate (m : Mutation)
  | updateExports (edit : List ExportEntry → List ExportEntry)
  | writeBytes (position : Nat) (data : List UInt8)
  | reload

/-- The change that a call makes. -/
def Call.change : Call → Change Unit
  | mutate m => m.change
  | updateExports edit => Change.updateExports edit
  | writeBytes position data => Change.writeBytes position data
  | reload => Change.reload

/-- No call writes to a package that may only be read, whatever the package is. -/
theorem Call.image_of_readOnly {p : Package} (hw : p.options.writable = false) (call : Call) :
    (call.change p).2.image = p.image := by
  cases call with
  | mutate m => exact congrArg Package.image (Package.same_of_readOnly hw m)
  | updateExports edit =>
    exact congrArg Package.image ((Package.fixed_of_readOnly hw).updateExports edit)
  | writeBytes position data => exact congrArg Package.image (same_ensureWritable hw)
  | reload => exact image_reload p

/-- A call within the limits of the format that fails leaves the package as it was, image, header
and tables, wherever a run of such calls has got to from what a draft stored, whether that has a
payload or not; and a package that was opened for reading keeps its image whatever is called and
whatever the call gives. The limits are those of `Mutation.Fits`, and the same for the draft: names
or parts of names below `2 ^ 31 - 1` characters, payloads below 2 GiB, and images below 4 GiB, also
between the relocations of one call. -/
theorem Draft.failure_changes_nothing :
    (∀ {d : Draft} {cs : Charset} {storage image : List UInt8} {name : String}
      {options : PackageOptions} {start p : Package} {stored : List (List UInt8)} {m : Mutation}
      {e : Error},
      d.store cs storage = .ok image → Package.load name options image = .ok start →
      (∀ x ∈ d.names, StorableText x.name) → (∀ x ∈ d.exports, x.2.length < 0x80000000) →
      image.length < 0x100000000 → Reaches start (d.exports.map Prod.snd) p stored →
      m.Fits p → (m.change p).1 = .error e → (m.change p).2 = p) ∧
    ∀ {p : Package}, p.options.writable = false → ∀ call : Call,
      (call.change p).2.image = p.image := by
  refine ⟨?_, Call.image_of_readOnly⟩
  intro d cs storage image name options start p stored m e hstore hload hs hdata hsize hrun hfits
    herror
  have hoptions := (Package.load_eq_ok.1 hload).2.2
  cases hw : options.writable with
  | false =>
    rw [← hoptions] at hw
    obtain rfl := hrun.same_of_readOnly hw
    exact Package.same_of_readOnly hw m
  | true =>
    have hg := generations_le (store_eq_ok.1 hstore) hload hsize
    have hintact := hrun.intact (intact hstore hload hw hg hs hdata hsize)
    exact hintact.atomic hfits e herror

/-- A draft without names and exports. -/
def Draft.empty : Draft where
  version := 68
  licensee := 0
  flags := 1
  guid := ⟨0, 0, 0, 0⟩
  generations := []
  names := []

/-- The package that the draft makes. -/
def Package.empty : Package where
  image :=
    [0xC1, 0x83, 0x2A, 0x9E, 68, 0, 0, 0, 1, 0, 0, 0, 0, 0, 0, 0, 64, 0, 0, 0, 0, 0, 0, 0, 64, 0, 0,
      0, 0, 0, 0, 0, 64, 0, 0, 0, 0, 0, 0, 0, 0, 0, 0, 0, 0, 0, 0, 0, 0, 0, 0, 0, 1, 0, 0, 0, 0, 0,
      0, 0, 0, 0, 0, 0]
  header := ⟨68, 0, 1, ⟨0, 64⟩, ⟨0, 64⟩, ⟨0, 64⟩, ⟨0, 0, 0, 0⟩, [⟨0, 0⟩]⟩
  tables := ⟨"P", [], [], []⟩
  options := { writable := true }

/-- An import cannot be added to a package without a payload, and nothing can be written to one that
was opened for reading. -/
theorem Draft.failure_changes_nothing_empty :
    (((Mutation.addImports [("A.B", "Core.Class")] false).change Package.empty).1 =
        .error .emptyDataBlock ∧
      ((Mutation.addImports [("A.B", "Core.Class")] false).change Package.empty).2 =
        Package.empty) ∧
    ((Call.writeBytes 0 [0]).change { Package.empty with options := {} }).2.image =
      Package.empty.image := by
  have hstore : Draft.empty.store .windows1252 [] = .ok Package.empty.image :=
    Draft.store_eq_ok.2 (by rfl)
  have hload : Package.load "P" Package.empty.options Package.empty.image =
      .ok Package.empty := by rfl
  have hfits : (Mutation.addImports [("A.B", "Core.Class")] false).Fits Package.empty :=
    ⟨by decide, by decide, by decide +kernel, by decide +kernel⟩
  have herror : ((Mutation.addImports [("A.B", "Core.Class")] false).change Package.empty).1 =
      .error .emptyDataBlock := by rfl
  have hstart : Reaches Package.empty (Draft.empty.exports.map Prod.snd) Package.empty [] := .refl
  refine ⟨⟨herror, Draft.failure_changes_nothing.1 hstore hload (by decide) (by decide) (by decide)
    hstart hfits herror⟩, ?_⟩
  exact Draft.failure_changes_nothing.2 (p := { Package.empty with options := {} }) rfl _

/-- The package with one export, whose payload an edit of the exports has placed at its beginning.
-/
def Package.misplaced : Package :=
  (Change.updateExports (fun _ => [⟨.none, .none, .none, 0, 0, 1, 0⟩]) Package.single).2

/-- The limits on names and calls are needed. A name that is too long is written before it cannot be
read; and where an edit of the exports, which is no `Mutation`, has placed the last payload in front
of the header, the next call that adds a name writes the tables over the header and fails. -/
theorem Draft.failure_changes_nothing_needs_limits :
    Draft.single.store .windows1252 [] = .ok Package.single.image ∧
    Package.load "P" Package.single.options Package.single.image = .ok Package.single ∧
    (∃ m : Mutation, (∀ data ∈ m.payloads, data.length < 0x80000000) ∧
      (∀ c ∈ m.stages, (c Package.single).2.image.length < 0x100000000) ∧
      (m.change Package.single).2.image.length < 0x100000000 ∧
      (m.change Package.single).1 = .error .truncated ∧
      (m.change Package.single).2.image ≠ Package.single.image) ∧
    (Change.updateExports (fun _ => [⟨.none, .none, .none, 0, 0, 1, 0⟩]) Package.single).1 =
      .ok () ∧
    ((Mutation.addNames [⟨"Core", 0⟩]).change Package.misplaced).1 =
      .error (.badMagic 0x6F4E05C1) ∧
    ((Mutation.addNames [⟨"Core", 0⟩]).change Package.misplaced).2.image ≠
      Package.misplaced.image := by
  obtain ⟨image, hrun, hsize, hload⟩ := Package.appendName_single rfl
  have hchange : (Mutation.updateNames (· ++ [.ofLetters 0x7FFFFFFF 0])).change Package.single =
      (.error .truncated, { Package.single with image }) := hrun
  refine ⟨Draft.store_single, Package.load_single,
    ⟨.updateNames (· ++ [.ofLetters 0x7FFFFFFF 0]), nofun, nofun, by rwa [hchange],
      by rw [hchange], fun hsame => ?_⟩, by decide +kernel, by decide +kernel, by decide +kernel⟩
  rw [hchange] at hsame
  have himage : image = Package.single.image := hsame
  cases (hload "P").symm.trans (himage ▸ Package.load_single)

end UnrealPackage
