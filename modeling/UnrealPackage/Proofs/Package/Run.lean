import UnrealPackage.Proofs.Package.Draft
import UnrealPackage.Proofs.Package.Exports
import UnrealPackage.Proofs.Package.TableEdit
/-!
# Runs of changes

A `Mutation` is one call that changes a package; `Reaches` is a run of them from a package that was
opened, whatever each call gives. Beside the package, a run carries the payloads that were stored
last, as `Mutation.record` tells them from the calls alone.

`Draft.run_faithful`: every package that a run reaches from what a draft stored is `Faithful` to the
payloads. The image has to stay below 4 GiB, also between the relocations of one call
(`Mutation.stages`), and what is stored has to fit the number that its length is stored in; without
that, a name may be lost (`Draft.run_faithful_needs_storable`).
-/

namespace UnrealPackage

/-- A call that changes a package. -/
inductive Mutation
  | addNames (entries : List NameEntry)
  | updateName (index : Nat) (e : NameEntry)
  | updateNames (edit : List NameEntry → List NameEntry)
  | updateImports (edit : List ImportEntry → List ImportEntry)
  | addImports (requests : List (String × String)) (force : Bool)
  | renameImport (index : Nat) (name : String)
  | changeImportClass (index : Nat) (type : String)
  | addExport (r : ExportRequest)
  | setExportData (index : Nat) (data : List UInt8)
  | setVersion (version : UInt16)
  | setLicensee (licensee : UInt16)
  | setFlags (flags : UInt32)
  | setGuid (guid : Guid)
  | setGenerations (generations : List Generation)

namespace Mutation

/-- The change that a call makes. -/
def change : Mutation → Change Unit
  | addNames entries => do let _ ← Change.addNames entries
  | updateName index e => Change.updateName index e
  | updateNames edit => Change.updateNames edit
  | updateImports edit => Change.updateImports edit
  | addImports requests force => Change.addImports requests force
  | renameImport index name => Change.renameImport index name
  | changeImportClass index type => Change.changeImportClass index type
  | addExport r => do let _ ← Change.addExport r
  | setExportData index data => Change.setExportData index data
  | setVersion version => Change.setVersion version
  | setLicensee licensee => Change.setLicensee licensee
  | setFlags flags => Change.setFlags flags
  | setGuid guid => Change.setGuid guid
  | setGenerations generations => Change.setGenerations generations

/-- The call up to each of the relocations that it may make before its last one. -/
def stages : Mutation → List (Change Unit)
  | addImports requests _ => [do let _ ← Change.prepareImports requests]
  | renameImport index name => [Change.prepareRename index name]
  | changeImportClass index type => [do let _ ← Change.prepareClass index type]
  | addExport r => Change.exportStages r
  | _ => []

/-- The names that a call is given, dotted ones by their parts; those of an edit depend on the names
that there are. -/
def texts (names : List NameEntry) : Mutation → List String
  | addNames entries => entries.map NameEntry.name
  | updateName _ e => [e.name]
  | updateNames edit => (edit names).map NameEntry.name
  | addImports requests _ => requests.flatMap fun x => segments x.1 ++ segments x.2
  | renameImport _ name => segments name
  | changeImportClass _ type => segments type
  | addExport r => segments r.name ++ (segments r.type ++ segments r.super)
  | _ => []

/-- The payloads that a call is given. -/
def payloads : Mutation → List (List UInt8)
  | addExport r => [r.data]
  | setExportData _ data => [data]
  | _ => []

/-- The call stays within the limits of the format. -/
structure Fits (m : Mutation) (p : Package) : Prop where
  texts : ∀ s ∈ m.texts p.tables.names, StorableText s
  payloads : ∀ data ∈ m.payloads, data.length < 0x80000000
  stages : ∀ c ∈ m.stages, (c p).2.image.length < 0x100000000
  size : (m.change p).2.image.length < 0x100000000

/-- The payloads of `n` exports that were added at once: an empty list for each of the packages
around the last one. -/
def addedPayloads (p : Package) (data : List UInt8) : Nat → List (List UInt8)
  | 0 => []
  | n + 1 =>
    match p.tables.nameIndex noneName with
    | .ok emptyList => List.replicate n (Encode.compact emptyList) ++ [data]
    | .error _ => []

/-- The payloads that were stored last, after the call. -/
def record (m : Mutation) (p : Package) (stored : List (List UInt8)) : List (List UInt8) :=
  match m with
  | setExportData index data =>
    match Change.setExportData index data p with
    | (.ok _, _) => stored.set index data
    | (.error _, _) => stored
  | addExport r =>
    match Change.addExport r p with
    | (.ok _, p') =>
      stored ++ addedPayloads p' r.data (p'.tables.exports.length - p.tables.exports.length)
    | (.error _, _) => stored
  | _ => stored

end Mutation

/-- The packages that calls make of `start`, each with the payloads that were stored last. -/
inductive Reaches (start : Package) (first : List (List UInt8)) :
    Package → List (List UInt8) → Prop
  | refl : Reaches start first start first
  | step {p : Package} {stored : List (List UInt8)} (m : Mutation) :
    Reaches start first p stored → m.Fits p →
      Reaches start first (m.change p).2 (m.record p stored)

/-! ## One call -/

namespace Mutation

variable {p : Package}

/-- The requests of a call that fits have names and classes whose parts can be stored. -/
theorem Fits.requests {requests : List (String × String)} {force : Bool}
    (h : (addImports requests force).Fits p) :
    ∀ x ∈ requests, StorableParts x.1 ∧ StorableParts x.2 := by
  intro x hx
  have hmem : ∀ s ∈ segments x.1 ++ segments x.2, StorableText s :=
    fun s hs => h.texts s (List.mem_flatMap.2 ⟨x, hx, hs⟩)
  exact List.forall_mem_append.1 hmem

theorem Fits.exportTexts {r : ExportRequest} (h : (addExport r).Fits p) :
    StorableParts r.name ∧ StorableParts r.type ∧ StorableParts r.super := by
  obtain ⟨hname, hclasses⟩ := List.forall_mem_append.1 h.texts
  exact ⟨hname, List.forall_mem_append.1 hclasses⟩

/-- The calls that only add names and edit the imports. -/
def onlyImports : Mutation → Bool
  | addNames _ | updateImports _ | addImports .. | renameImport .. | changeImportClass .. => true
  | _ => false

end Mutation

/-- What additions of names and edits of the imports keep is kept by every call made of them. -/
theorem Change.Stable.step {P : Package → Prop} {p : Package} {m : Mutation} (hP : Stable P)
    (h : P p) (hm : m.onlyImports = true) (hfits : m.Fits p) : P (m.change p).2 := by
  have hsize := hfits.size
  have htexts := hfits.texts
  have hstages := hfits.stages
  cases m with
  | addNames entries =>
    simp only [Mutation.change, after_bind_pure] at hsize ⊢
    exact hP.addNames h (fun e he => htexts _ (List.mem_map_of_mem he)) hsize
  | updateImports edit => exact hP.updateImports h hsize
  | addImports requests force =>
    have hnames := hstages _ List.mem_cons_self
    rw [after_bind_pure] at hnames
    exact hP.addImports h hfits.requests hnames hsize
  | renameImport index name =>
    exact hP.renameImport h htexts (hstages _ List.mem_cons_self) hsize
  | changeImportClass index type =>
    have hnames := hstages _ List.mem_cons_self
    rw [after_bind_pure] at hnames
    exact hP.changeImportClass h htexts hnames hsize
  | _ => cases hm

namespace Package.Intact

variable {p : Package} {stored : List (List UInt8)} {m : Mutation}

/-- A payload that was replaced is the one stored last for its export. -/
theorem step_setExportData (h : p.Intact stored) {index : Nat} {data : List UInt8}
    (hfits : (Mutation.setExportData index data).Fits p) :
    ((Mutation.setExportData index data).change p).2.Intact
      ((Mutation.setExportData index data).record p stored) := by
  have hdata := hfits.payloads data List.mem_cons_self
  simp only [Mutation.change, Mutation.record]
  rcases h.setExportData hdata hfits.size with ⟨e, he⟩ | ⟨p', hp', hintact⟩
  · rw [he]
    exact h
  · rw [hp']
    exact hintact

/-- The number of exports tells whether any were added. -/
theorem step_addExport (h : p.Intact stored) {r : ExportRequest}
    (hfits : (Mutation.addExport r).Fits p) :
    ((Mutation.addExport r).change p).2.Intact ((Mutation.addExport r).record p stored) := by
  have hdata := hfits.payloads r.data List.mem_cons_self
  have hsize := hfits.size
  obtain ⟨hname, htype, hsuper⟩ := hfits.exportTexts
  simp only [Mutation.change, Mutation.record, Change.after_bind_pure] at hsize ⊢
  rcases h.addExport hname htype hsuper hdata hfits.stages hsize with
    hsame | ⟨index, p', emptyList, k, hp', hnone, hintact⟩
  · rcases hrun : Change.addExport r p with ⟨e | index, p'⟩
    · rwa [hrun] at hsame
    · rw [hrun] at hsame
      have hcount : p'.tables.exports.length - p.tables.exports.length = 0 := by
        rw [← hsame.placed.length, ← h.placed.length, Nat.sub_self]
      simp only [hcount, Mutation.addedPayloads, List.append_nil]
      exact hsame
  · have hcount : p'.tables.exports.length - p.tables.exports.length = k + 1 := by
      rw [← hintact.placed.length, ← h.placed.length]
      simp only [List.length_append, List.length_replicate, List.length_singleton]
      omega
    simp only [hp', hcount, Mutation.addedPayloads, hnone]
    exact hintact

/-- Every call that stays within the limits keeps the invariant. -/
theorem step (h : p.Intact stored) (hfits : m.Fits p) :
    (m.change p).2.Intact (m.record p stored) := by
  cases m with
  | updateName index e => exact h.updateName (hfits.texts _ List.mem_cons_self) hfits.size
  | updateNames edit =>
    exact h.updateNames (fun e he => hfits.texts _ (List.mem_map_of_mem he)) hfits.size
  | addExport r => exact h.step_addExport hfits
  | setExportData index data => exact h.step_setExportData hfits
  | setVersion version => exact h.setVersion version
  | setLicensee licensee => exact h.setLicensee licensee
  | setFlags flags => exact h.setFlags flags
  | setGuid guid => exact h.setGuid guid
  | setGenerations generations => exact h.setGenerations generations
  | _ => exact stable.step h rfl hfits

end Package.Intact

/-! ## Runs -/

/-- The invariant holds along a run if it holds at its start. -/
theorem Reaches.intact {start p : Package} {first stored : List (List UInt8)}
    (hrun : Reaches start first p stored) (h : start.Intact first) : p.Intact stored := by
  induction hrun with
  | refl => exact h
  | step m _ hfits ih => exact ih.step hfits

/-- Whatever calls within the limits of the format are made on a package that was stored by a draft
and opened for writing, and whatever each of them gives, the package is faithful to the payloads
that were stored last: the image says what is in memory, the payloads lie apart between the header
and the names, the tables lie in a row behind them up to the end, and each export's payload is the
one stored for it. The limits are those of `Mutation.Fits` for each call, and the same for the
draft: a name, or each part of a dotted one, has fewer than `2 ^ 31 - 1` characters, a payload takes
less than 2 GiB, and the image stays below 4 GiB, also between the relocations of one call. -/
theorem Draft.run_faithful {d : Draft} {cs : Charset} {storage image : List UInt8} {name : String}
    {options : PackageOptions} {start p : Package} {stored : List (List UInt8)}
    (hstore : d.store cs storage = .ok image)
    (hload : Package.load name options image = .ok start) (hw : options.writable = true)
    (hg : d.generations.length ≤ Header.generationLimit)
    (hs : ∀ e ∈ d.names, StorableText e.name) (hdata : ∀ x ∈ d.exports, x.2.length < 0x80000000)
    (hsize : image.length < 0x100000000)
    (hrun : Reaches start (d.exports.map Prod.snd) p stored) : p.Faithful stored :=
  (hrun.intact (intact hstore hload hw hg hs hdata hsize)).faithful

/-- A draft of the package with one name and one export. -/
def Draft.single : Draft where
  version := 68
  licensee := 0
  flags := 1
  guid := ⟨0, 0, 0, 0⟩
  generations := []
  names := [⟨"None", 0⟩]
  exports := [(⟨.none, .none, .none, 0, 0, 0, 0⟩, [7])]

theorem Draft.store_single :
    Draft.single.store .windows1252 [] = .ok Package.single.image :=
  Draft.store_eq_ok.2 (by rfl)

theorem Package.intact_single : single.Intact [[7]] :=
  Draft.intact Draft.store_single load_single rfl (by decide) (by decide) (by decide) (by decide)

/-- A longer payload is stored for the only export of a package. -/
theorem Draft.run_faithful_single :
    ((Mutation.setExportData 0 [1, 2]).change Package.single).2.Faithful [[1, 2]] := by
  have hfits : (Mutation.setExportData 0 [1, 2]).Fits Package.single :=
    ⟨by decide, by decide, by decide, by decide +kernel⟩
  have hrecord : (Mutation.setExportData 0 [1, 2]).record Package.single [[7]] = [[1, 2]] := by
    decide +kernel
  have hstart : Reaches Package.single [[7]] Package.single [[7]] := .refl
  have hrun := hstart.step (Mutation.setExportData 0 [1, 2]) hfits
  rw [hrecord] at hrun
  exact Draft.run_faithful Draft.store_single Package.load_single rfl (by decide) (by decide)
    (by decide) (by decide) hrun

/-- The limit on names is needed: an edit that adds one that is too long stays below 4 GiB and
leaves an image behind that is not read. -/
theorem Draft.run_faithful_needs_storable :
    Draft.single.store .windows1252 [] = .ok Package.single.image ∧
    Package.load "P" Package.single.options Package.single.image = .ok Package.single ∧
    ∃ m : Mutation, (∀ data ∈ m.payloads, data.length < 0x80000000) ∧
      (∀ c ∈ m.stages, (c Package.single).2.image.length < 0x100000000) ∧
      (m.change Package.single).2.image.length < 0x100000000 ∧
      ¬(m.change Package.single).2.Faithful (m.record Package.single [[7]]) := by
  obtain ⟨image, hrun, hsize, hload⟩ := Package.appendName_single rfl
  have hchange : (Mutation.updateNames (· ++ [.ofLetters 0x7FFFFFFF 0])).change Package.single =
      (.error .truncated, { Package.single with image }) := hrun
  refine ⟨Draft.store_single, Package.load_single, .updateNames (· ++ [.ofLetters 0x7FFFFFFF 0]),
    nofun, nofun, by rwa [hchange], fun hfaithful => ?_⟩
  rw [hchange] at hfaithful
  cases (hload _).symm.trans hfaithful.load

end UnrealPackage
