import UnrealPackage.Proofs.Package.Intact
/-!
# Payloads that are replaced and added

`Intact.setExportData`: replacing a payload keeps the invariant, and the payload is then the new
one. A payload that is longer than the old one is relocated; another one is written over it, and the
export table, which is the last one, is written again where it is (`Laid.storeExports`).

`Intact.addExport`: adding an export keeps the invariant, and adds its payload and an empty list for
each package around it that was not there. `ExportDraft.Pushed` describes the exports on their way.
-/

namespace UnrealPackage.Package

open Decode

variable {p : Package} {stored : List (List UInt8)} {body nameBytes : List UInt8}

/-! ## The export table -/

/-- The other tables begin in front of the export table. -/
def ExportsLast (p : Package) : Prop :=
  p.header.names.offset ≤ p.header.exports.offset ∧
    p.header.imports.offset ≤ p.header.exports.offset

instance : Decidable p.ExportsLast :=
  inferInstanceAs (Decidable (_ ∧ _))

/-- The image with another export table, which ends there if the export table is the last one. -/
theorem image_storeExports (p : Package) (exports : List ExportEntry) :
    (Change.storeExports exports p).2.image =
      if p.ExportsLast then
        resize p.image p.header.exports.offset.toNat ++ Encode.exportTable exports
      else writeAt p.image p.header.exports.offset.toNat (Encode.exportTable exports) := by
  rw [Change.storeExports, Change.bind_update, Change.image_reload]
  simp only [Bool.and_eq_true, decide_eq_true_eq, resize_writeAt]
  rfl

/-- Writing the export table ends with reading the image again. -/
theorem storeExports_eq (p : Package) (exports : List ExportEntry) :
    Change.storeExports exports p =
      Change.reload { p with image := (Change.storeExports exports p).2.image } := by
  rw [Change.storeExports, Change.bind_update]
  simp only [Change.image_reload]

/-- The image with another export table, which ends where the image ends. -/
theorem Laid.image_storeExports (h : p.Laid body nameBytes) (exports : List ExportEntry) :
    (Change.storeExports exports p).2.image = p.header.encode ++ (body ++ (nameBytes ++
      (Encode.importTable p.tables.imports ++ Encode.exportTable exports))) := by
  obtain ⟨hn, hi, he⟩ := h.places
  have hlast : p.ExportsLast := by
    rw [ExportsLast, UInt32.le_iff_toNat_le, UInt32.le_iff_toNat_le, hn.2, hi.2, he.2]
    simp only [List.length_append]
    omega
  rw [p.image_storeExports, if_pos hlast, he.2, h.image_exports, resize_length_append]
  simp only [List.append_assoc]

/-- Writing the export table again succeeds, if it has as many records as before, and moves
nothing. -/
theorem Laid.storeExports (h : p.Laid body nameBytes) {exports : List ExportEntry}
    (hcount : exports.length = p.tables.exports.length)
    (hsize : (Change.storeExports exports p).2.image.length < 0x100000000) :
    ∃ p', Change.storeExports exports p = (.ok (), p') ∧ p'.Laid body nameBytes ∧
      p'.options = p.options ∧ p'.header = p.header ∧
      p'.tables = { p.tables with exports := exports } ∧
      ∀ i < p.header.names.offset.toNat, p'.image[i]? = p.image[i]? := by
  have himage := h.image_storeExports exports
  have hrun := p.storeExports_eq exports
  generalize (Change.storeExports exports p).2.image = image at himage hsize hrun
  have hlaid : Laid { p with image, tables := { p.tables with exports } } body nameBytes :=
    ⟨himage, hsize, h.generations, h.reads, h.names, h.imports, hcount ▸ h.exports⟩
  refine ⟨_, hrun.trans (Change.reload_eq hlaid.readImage), hlaid, rfl, rfl, rfl, fun i hi => ?_⟩
  have hfront : i < (p.header.encode ++ body).length := by
    rw [List.length_append, Header.length_encode, ← h.names.2]
    exact hi
  rw [h.image_names, himage, ← List.append_assoc, List.getElem?_append_left hfront,
    List.getElem?_append_left hfront]

/-! ## Replacing a payload -/

/-- Bytes between the header and the tables can be written over. -/
theorem Laid.writeBetween (h : p.Laid body nameBytes) {position : Nat} (data : List UInt8)
    (hlow : p.header.encodedLength ≤ position)
    (hhigh : position + data.length ≤ p.header.names.offset.toNat) :
    ∃ body', Laid { p with image := writeAt p.image position data } body' nameBytes := by
  obtain ⟨n, rfl⟩ := Nat.exists_eq_add_of_le hlow
  have hnames := h.names.2
  have hsize := h.size
  have hlength := h.length_image
  have hbody : (writeAt body n data).length = body.length := by
    rw [length_writeAt]
    omega
  refine ⟨writeAt body n data, ?_, ?_, h.generations, h.reads, ?_, ?_, ?_⟩
  · show writeAt p.image _ data = _
    rw [h.image, ← Header.length_encode, writeAt_append_right, writeAt_append_left (by omega)]
  · rw [length_writeAt]
    omega
  · exact hbody ▸ h.names
  · exact hbody ▸ h.imports
  · exact hbody ▸ h.exports

/-- A payload that is written over one that is not shorter. -/
theorem Intact.overwrite (h : p.Intact stored) {index : Nat} {e : ExportEntry} {data : List UInt8}
    (he : p.tables.exports[index]? = some e) (hle : data.length ≤ e.size.toInt.toNat)
    (hne : data ≠ []) :
    (∃ body nameBytes, Laid { p with image := writeAt p.image e.start data } body nameBytes) ∧
      Placed (writeAt p.image e.start data) p.header.encodedLength p.header.names.offset.toNat
        (p.tables.exports.modify index fun e => { e with size := Int32.ofNat data.length })
        (stored.set index data) := by
  obtain ⟨body, nameBytes, hlaid⟩ := h.laid
  obtain ⟨old, -, hholds⟩ := h.placed.exists_stored he
  have hpos := List.length_pos_iff.2 hne
  have hrange := hholds.between (by omega)
  have hbelow : p.header.names.offset.toNat ≤ p.image.length :=
    Nat.le_trans hlaid.tablesInRow.names.2.1 hlaid.tablesInRow.names.2.2.1
  obtain ⟨body', hlaid'⟩ := hlaid.writeBetween data hrange.1 (by omega)
  refine ⟨⟨body', nameBytes, hlaid'⟩,
    h.placed.shrink he hle (fun i _ hi hapart => ?_) fun i hi => ?_⟩
  · rw [getElem?_writeAt]
    split
    · rw [List.getElem?_eq_getElem (by omega)]
      rfl
    · rw [if_neg (by omega)]
  · rw [getElem?_writeAt, if_neg (by omega), if_pos (by omega), Nat.add_sub_cancel_left]

/-- The package with a payload written over one that is not shorter. -/
def overwritten (p : Package) (e : ExportEntry) (data : List UInt8) : Package :=
  if data.isEmpty then p else { p with image := writeAt p.image e.start data }

/-- How a payload is replaced: a longer one is relocated, another one written over the old one. -/
theorem setExportData_eq {index : Nat} {e : ExportEntry} (data : List UInt8)
    (hw : p.options.writable = true) (he : p.tables.exports[index]? = some e) :
    Change.setExportData index data p =
      if max e.size.toInt 0 < data.length then Change.relocate p.tables [⟨index, data⟩] p
      else if Int32.ofNat data.length ≠ e.size then
        Change.storeExports ((p.overwritten e data).tables.exports.modify index fun e =>
          { e with size := Int32.ofNat data.length }) (p.overwritten e data)
      else (.ok (), p.overwritten e data) := by
  have hat : p.tables.exportAt index = .ok e := by
    rw [Tables.exportAt, he]
    rfl
  rw [Change.setExportData, Change.bind_ok (Change.ensureWritable_ok hw),
    Change.bind_ok (Change.gets_ok hat), overwritten]
  by_cases hlong : max e.size.toInt 0 < data.length
  · rw [if_pos hlong, if_pos hlong, Change.bind_look]
  · rw [if_neg hlong, if_neg hlong]
    by_cases hsize : Int32.ofNat data.length ≠ e.size
    · simp only [if_pos hsize]
      cases data <;> rfl
    · simp only [if_neg hsize]
      cases data <;> rfl

/-- What writing over a payload leaves for the export table to say. -/
theorem Intact.overwritten (h : p.Intact stored) {index : Nat} {e : ExportEntry}
    {data : List UInt8} (he : p.tables.exports[index]? = some e)
    (hle : data.length ≤ e.size.toInt.toNat) :
    (p.overwritten e data).tables = p.tables ∧ (p.overwritten e data).header = p.header ∧
      (p.overwritten e data).options = p.options ∧
      (∃ body nameBytes, (p.overwritten e data).Laid body nameBytes) ∧
      Placed (p.overwritten e data).image p.header.encodedLength p.header.names.offset.toNat
        (p.tables.exports.modify index fun e => { e with size := Int32.ofNat data.length })
        (stored.set index data) := by
  unfold Package.overwritten
  cases hdata : data.isEmpty with
  | true =>
    obtain rfl := List.isEmpty_iff.1 hdata
    exact ⟨rfl, rfl, rfl, h.laid,
      h.placed.shrink he hle (fun _ _ _ _ => rfl) (standsAt_nil _ _)⟩
  | false =>
    have hne : data ≠ [] := by
      rintro rfl
      cases hdata
    exact ⟨rfl, rfl, rfl, h.overwrite he hle hne⟩

/-- A modification that does not change the entry it is made on changes nothing. -/
theorem modify_eq_self {exports : List ExportEntry} {index : Nat} {e : ExportEntry}
    {f : ExportEntry → ExportEntry} (he : exports[index]? = some e) (hf : f e = e) :
    exports.modify index f = exports := by
  apply List.ext_getElem?
  intro i
  by_cases hi : i = index
  · subst hi
    rw [List.getElem?_modify_eq, he]
    simp [hf]
  · rw [List.getElem?_modify_ne _ _ (Ne.symm hi)]

/-- A payload that is not longer than the old one is replaced in its place. -/
theorem Intact.replaceInPlace (h : p.Intact stored) {index : Nat} {e : ExportEntry}
    {data : List UInt8} (he : p.tables.exports[index]? = some e)
    (hshort : ¬max e.size.toInt 0 < data.length)
    (hsize : (Change.setExportData index data p).2.image.length < 0x100000000) :
    ∃ p', Change.setExportData index data p = (.ok (), p') ∧
      p'.Intact (stored.set index data) := by
  have hle : data.length ≤ e.size.toInt.toNat := by omega
  obtain ⟨htables, hheader, hoptions, ⟨body, nameBytes, hlaid⟩, hplaced⟩ := h.overwritten he hle
  rw [setExportData_eq data h.writable he, if_neg hshort] at hsize ⊢
  by_cases hsame : Int32.ofNat data.length ≠ e.size
  · rw [if_pos hsame] at hsize ⊢
    obtain ⟨p', hp', hlaid', hoptions', hheader', htables', hbytes⟩ :=
      hlaid.storeExports (List.length_modify _ _ _) hsize
    refine ⟨p', hp', ?_, ⟨body, nameBytes, hlaid'⟩, ?_⟩
    · rw [hoptions', hoptions]
      exact h.writable
    · rw [hheader', htables', hheader, htables]
      exact hplaced.congr (Nat.le_refl _) fun i _ hi => hbytes i (hheader ▸ hi)
  · rw [if_neg hsame]
    refine ⟨_, rfl, ?_, ⟨body, nameBytes, hlaid⟩, ?_⟩
    · rw [hoptions]
      exact h.writable
    · have hself : ({ e with size := Int32.ofNat data.length } : ExportEntry) = e := by
        rw [Decidable.not_not.1 hsame]
      rw [modify_eq_self he hself] at hplaced
      rw [hheader, htables]
      exact hplaced

/-- A payload is replaced, or nothing has changed. -/
theorem Intact.setExportData (h : p.Intact stored) {index : Nat} {data : List UInt8}
    (hdata : data.length < 0x80000000)
    (hsize : (Change.setExportData index data p).2.image.length < 0x100000000) :
    (∃ e, Change.setExportData index data p = (.error e, p)) ∨
      ∃ p', Change.setExportData index data p = (.ok (), p') ∧
        p'.Intact (stored.set index data) := by
  cases he : p.tables.exports[index]? with
  | none =>
    have hat : p.tables.exportAt index =
        .error (.outOfRange .exports index p.tables.exports.length) := by
      rw [Tables.exportAt, he]
      rfl
    rw [Change.setExportData, Change.bind_ok (Change.ensureWritable_ok h.writable),
      Change.bind_error (Change.gets_error hat)]
    exact .inl ⟨_, rfl⟩
  | some e =>
    by_cases hlong : max e.size.toInt 0 < data.length
    · rw [setExportData_eq data h.writable he, if_pos hlong] at hsize ⊢
      have hdata' : ∀ x ∈ [PendingPayload.mk index data], x.data.length < 0x80000000 := by
        simpa using hdata
      rcases h.relocate rfl h.storable (fun _ _ _ hp => hp) hdata' hsize with
        herror | ⟨p', hp', -, hintact⟩
      · exact .inl herror
      · exact .inr ⟨p', hp', hintact⟩
    · exact .inr (h.replaceInPlace he hlong hsize)

end UnrealPackage.Package

namespace UnrealPackage

/-! ## Adding exports -/

/-- The draft is `base` with an export for each of the payloads `added`, still without it. -/
inductive ExportDraft.Pushed (base : List ExportEntry) : ExportDraft → List (List UInt8) → Prop
  | start : Pushed base ⟨base, []⟩ []
  | push {d : ExportDraft} {added : List (List UInt8)} {e : ExportEntry} (data : List UInt8) :
    Pushed base d added → e.size.toInt = 0 → Pushed base (d.push e data) (added ++ [data])

namespace ExportDraft

variable {base : List ExportEntry} {d d' : ExportDraft} {added stored : List (List UInt8)}

/-- Packages that are missing are added with the same payload each. -/
theorem pushed_addPackages {t : Tables} {type outer ref : ObjectRef} {data : List UInt8}
    {path : List String} (h : Pushed base d added)
    (hadd : addPackages t type data d outer path = .ok (d', ref)) :
    ∃ k, Pushed base d' (added ++ List.replicate k data) := by
  induction path generalizing d outer added with
  | nil =>
    cases hadd
    exact ⟨0, by rwa [List.replicate_zero, List.append_nil]⟩
  | cons part path ih =>
    obtain ⟨objectName, -, hadd⟩ := except_bind_eq_ok.1 hadd
    dsimp only at hadd
    split at hadd
    · exact ih h hadd
    · obtain ⟨k, hk⟩ := ih (h.push data rfl) hadd
      refine ⟨k + 1, ?_⟩
      rwa [List.append_assoc, List.singleton_append, ← List.replicate_succ] at hk

namespace Pushed

theorem length (h : Pushed base d added) : d.exports.length = base.length + added.length := by
  induction h with
  | start => rfl
  | push data _ _ ih =>
    simp only [ExportDraft.push, List.length_append, List.length_singleton, ih, Nat.add_assoc]

/-- Every payload that is to be stored belongs to an export that is there. -/
theorem index_lt (h : Pushed base d added) : ∀ x ∈ d.payloads, x.index < d.exports.length := by
  induction h with
  | start => exact nofun
  | push data _ _ ih =>
    intro x hx
    simp only [ExportDraft.push, List.length_append, List.length_singleton]
    rcases List.mem_append.1 hx with hx | hx
    · exact Nat.lt_succ_of_lt (ih x hx)
    · rw [List.mem_singleton.1 hx]
      exact Nat.lt_succ_self _

/-- No payload is to be stored for an export that was there before. -/
theorem le_index (h : Pushed base d added) : ∀ x ∈ d.payloads, base.length ≤ x.index := by
  induction h with
  | start => exact nofun
  | push data h _ ih =>
    intro x hx
    rcases List.mem_append.1 hx with hx | hx
    · exact ih x hx
    · rw [List.mem_singleton.1 hx, h.length]
      exact Nat.le_add_right _ _

theorem isPrefix (h : Pushed base d added) : base <+: d.exports := by
  induction h with
  | start => exact List.prefix_refl _
  | push data _ _ ih => exact ih.trans (List.prefix_append _ _)

/-- Each payload that is to be stored belongs to an export that was added. -/
theorem mem_added (h : Pushed base d added) : ∀ x ∈ d.payloads, x.data ∈ added := by
  induction h with
  | start => exact nofun
  | push data _ _ ih =>
    intro x hx
    rcases List.mem_append.1 hx with hx | hx
    · exact List.mem_append_left _ (ih x hx)
    · rw [List.mem_singleton.1 hx]
      exact List.mem_append_right _ List.mem_cons_self

/-- The payloads of packages are short, so all are if the last one is. -/
theorem length_lt {emptyList : NameIndex} {data : List UInt8} {k : Nat}
    (h : Pushed base d (List.replicate k (Encode.compact emptyList) ++ [data]))
    (hdata : data.length < 0x80000000) : ∀ x ∈ d.payloads, x.data.length < 0x80000000 := by
  intro x hx
  rcases List.mem_append.1 (h.mem_added x hx) with hmem | hmem
  · have := Encode.length_compact_le emptyList
    rw [List.eq_of_mem_replicate hmem]
    omega
  · rwa [List.mem_singleton.1 hmem]

/-- The exports of a draft without their payloads. -/
theorem placed (h : Pushed base d added) {image : List UInt8} {low high : Nat}
    (hp : Placed image low high base stored) :
    Placed image low high d.exports (stored ++ List.replicate added.length []) := by
  induction h with
  | start => simpa using hp
  | push data _ hsize ih =>
    rw [List.length_append, List.length_singleton, List.replicate_succ', ← List.append_assoc]
    exact ih.push hsize

/-- Payloads that are set in the front of a row leave the rest. -/
theorem foldl_set_append {payloads : List PendingPayload} {xs ys : List (List UInt8)}
    (h : ∀ x ∈ payloads, x.index < xs.length) :
    payloads.foldl (fun stored x => stored.set x.index x.data) (xs ++ ys) =
      payloads.foldl (fun stored x => stored.set x.index x.data) xs ++ ys := by
  induction payloads generalizing xs with
  | nil => rfl
  | cons x payloads ih =>
    rw [List.foldl_cons, List.foldl_cons, List.set_append_left _ _ (h x List.mem_cons_self)]
    refine ih fun y hy => ?_
    rw [List.length_set]
    exact h y (List.mem_cons_of_mem x hy)

/-- When all payloads are stored, the new ones follow those there were. -/
theorem stored_eq (h : Pushed base d added) (hl : stored.length = base.length) :
    d.payloads.foldl (fun stored x => stored.set x.index x.data)
      (stored ++ List.replicate added.length []) = stored ++ added := by
  induction h with
  | start => rfl
  | push data h _ ih =>
    have hlength := h.length
    have hindex := h.index_lt
    simp only [ExportDraft.push, List.foldl_append, List.foldl_cons, List.foldl_nil]
    rw [List.length_append, List.length_singleton, List.replicate_succ', ← List.append_assoc,
      foldl_set_append, ih]
    · rw [List.set_append_right, List.length_append, hl, hlength, Nat.sub_self, List.set_cons_zero,
        List.append_assoc]
      simp only [List.length_append]
      omega
    · simp only [List.length_append, List.length_replicate, hl]
      rwa [← hlength]

end Pushed

end ExportDraft

namespace Change

/-- `prepareExport` up to the names. -/
def exportNames (r : ExportRequest) : Change Unit :=
  ensureNames (noneName :: packageClassNames ++ segments r.name)

/-- `prepareExport` up to the class. -/
def exportType (r : ExportRequest) : Change Unit := do
  exportNames r
  let _ ← classReference r.type
  pure ()

/-- `prepareExport` up to the super. -/
def exportSuper (r : ExportRequest) : Change Unit := do
  exportType r
  let _ ← classReference r.super
  pure ()

/-- `prepareExport` up to each of the relocations that it may make, the last one included. -/
def exportStages (r : ExportRequest) : List (Change Unit) := [
  exportNames r,
  do exportNames r; prepareReference r.type,
  exportType r,
  do exportType r; prepareReference r.super,
  exportSuper r,
  do exportSuper r; if (segments r.name).length > 1 then prepareReference "Core.Package",
  do let _ ← prepareExport r]

section Stages

variable {p p₁ p₂ p₃ : Package} {r : ExportRequest} {type super : ObjectRef}

theorem run_exportType (h₁ : exportNames r p = (.ok (), p₁))
    (h₂ : classReference r.type p₁ = (.ok type, p₂)) : exportType r p = (.ok (), p₂) := by
  rw [exportType, bind_ok h₁, bind_ok h₂]
  rfl

theorem run_exportSuper (h₁ : exportNames r p = (.ok (), p₁))
    (h₂ : classReference r.type p₁ = (.ok type, p₂))
    (h₃ : classReference r.super p₂ = (.ok super, p₃)) : exportSuper r p = (.ok (), p₃) := by
  rw [exportSuper, bind_ok (run_exportType h₁ h₂), bind_ok h₃]
  rfl

/-- If its names cannot be added, no stage does anything else. -/
theorem exportStages_error {e : Error} {p' : Package} (h : exportNames r p = (.error e, p')) :
    ∀ c ∈ exportStages r, (c p).2 = p' := by
  have htype : exportType r p = (.error e, p') := bind_error h
  have hsuper : exportSuper r p = (.error e, p') := bind_error htype
  have hprepare : prepareExport r p = (.error e, p') := bind_error h
  simp only [exportStages, List.forall_mem_cons]
  refine ⟨by rw [h], by rw [bind_error h], by rw [htype], by rw [bind_error htype], by rw [hsuper],
    by rw [bind_error hsuper], by rw [after_bind_pure, hprepare], nofun⟩

/-- What holds of what each stage leaves behind, holds of what each step does. -/
theorem forall_exportStages {P : Package → Prop} (h : ∀ c ∈ exportStages r, P (c p).2) :
    P (exportNames r p).2 ∧
    (∀ p₁, exportNames r p = (.ok (), p₁) →
      P (prepareReference r.type p₁).2 ∧ P (classReference r.type p₁).2 ∧
      ∀ type p₂, classReference r.type p₁ = (.ok type, p₂) →
        P (prepareReference r.super p₂).2 ∧ P (classReference r.super p₂).2 ∧
        ∀ super p₃, classReference r.super p₂ = (.ok super, p₃) →
          (segments r.name).length > 1 →
            P (prepareReference "Core.Package" p₃).2 ∧ P (classReference "Core.Package" p₃).2) ∧
    P (prepareExport r p).2 := by
  simp only [exportStages, List.forall_mem_cons] at h
  obtain ⟨hs₁, hs₂, hs₃, hs₄, hs₅, hs₆, hs₇, -⟩ := h
  rw [after_bind_pure] at hs₇
  refine ⟨hs₁, fun p₁ h₁ => ?_, hs₇⟩
  rw [bind_ok h₁] at hs₂
  rw [exportType, bind_ok h₁, after_bind_pure] at hs₃
  refine ⟨hs₂, hs₃, fun type p₂ h₂ => ?_⟩
  have hrun₂ := run_exportType h₁ h₂
  rw [bind_ok hrun₂] at hs₄
  rw [exportSuper, bind_ok hrun₂, after_bind_pure] at hs₅
  refine ⟨hs₄, hs₅, fun super p₃ h₃ hnested => ?_⟩
  rw [bind_ok (run_exportSuper h₁ h₂ h₃), if_pos hnested] at hs₆
  rw [prepareExport, bind_ok (show ensureNames _ p = _ from h₁), bind_ok h₂, bind_ok h₃] at hs₇
  dsimp only at hs₇
  rw [if_pos hnested, after_bind_pure] at hs₇
  exact ⟨hs₆, hs₇⟩

end Stages

end Change

/-- Packages are not added only where one of their names is missing. -/
theorem ExportDraft.addPackages_error {t : Tables} {type outer : ObjectRef} {data : List UInt8}
    {path : List String} {e : Error} {d : ExportDraft}
    (h : addPackages t type data d outer path = .error e) :
    ∃ n ∈ path, ∃ e, t.nameIndex n = .error e := by
  induction path generalizing d outer with
  | nil => cases h
  | cons part path ih =>
    cases hpart : t.nameIndex part with
    | error e => exact ⟨part, List.mem_cons_self, e, hpart⟩
    | ok objectName =>
      rw [addPackages, hpart, except_ok_bind] at h
      dsimp only at h
      split at h
      all_goals
        obtain ⟨n, hn, herror⟩ := ih h
        exact ⟨n, List.mem_cons_of_mem _ hn, herror⟩

/-- A name is missing, or there is an export in the place already, or a draft with the new export at
its end is stored. -/
theorem Change.insertExport_cases (p : Package) (r : ExportRequest)
    (type super packageType : ObjectRef) :
    (∃ e, insertExport r type super packageType p = (.error e, p) ∧
      ∃ n ∈ noneName :: segments r.name, ∃ e, p.tables.nameIndex n = .error e) ∨
    (∃ i, insertExport r type super packageType p = (.ok i, p)) ∨
    ∃ emptyList k d, p.tables.nameIndex noneName = .ok emptyList ∧
      ExportDraft.Pushed p.tables.exports d
        (List.replicate k (Encode.compact emptyList) ++ [r.data]) ∧
      insertExport r type super packageType p =
        (relocate { p.tables with exports := d.exports } d.payloads >>= fun _ =>
          pure (d.exports.length - 1)) p := by
  rw [insertExport, bind_look]
  cases hnone : p.tables.nameIndex noneName with
  | error e =>
    rw [bind_error (lift_error rfl)]
    exact .inl ⟨e, rfl, noneName, List.mem_cons_self, e, hnone⟩
  | ok emptyList =>
    rw [bind_ok (lift_ok rfl)]
    cases hadd : ExportDraft.addPackages p.tables packageType (Encode.compact emptyList)
        ⟨p.tables.exports, []⟩ .none (segments r.name).dropLast with
    | error e =>
      rw [bind_error (lift_error rfl)]
      obtain ⟨n, hn, herror⟩ := ExportDraft.addPackages_error hadd
      exact .inl ⟨e, rfl, n, List.mem_cons_of_mem _ (List.dropLast_subset _ hn), herror⟩
    | ok added =>
      obtain ⟨draft, outer⟩ := added
      rw [bind_ok (lift_ok rfl)]
      dsimp only
      cases hlast : p.tables.nameIndex ((segments r.name).getLastD "") with
      | error e =>
        rw [bind_error (lift_error rfl)]
        exact .inl ⟨e, rfl, _, List.mem_cons_of_mem _ (getLastD_mem_segments r.name), e, hlast⟩
      | ok objectName =>
        rw [bind_ok (lift_ok rfl)]
        cases draft.find? { type, outer, objectName } with
        | some i => exact .inr (.inl ⟨i, rfl⟩)
        | none =>
          obtain ⟨k, hk⟩ := ExportDraft.pushed_addPackages .start hadd
          exact .inr (.inr ⟨emptyList, k, _, rfl, hk.push r.data rfl, rfl⟩)

/-- The names that an export needs can be stored if its own can. -/
theorem storable_exportNames {r : ExportRequest} (hs : StorableParts r.name) :
    ∀ n ∈ noneName :: packageClassNames ++ segments r.name, StorableText n := by
  intro n hn
  rcases List.mem_append.1 hn with hn | hn
  · rcases List.mem_cons.1 hn with rfl | hn
    · exact (by decide : StorableText noneName)
    · exact storable_packageClassNames n hn
  · exact hs n hn

/-- What additions of names and edits of the imports keep holds after all steps before an export is
added. -/
theorem Change.Stable.prepareExport {P : Package → Prop} {p : Package} {r : ExportRequest}
    (hP : Stable P) (h : P p) (hname : StorableParts r.name) (htype : StorableParts r.type)
    (hsuper : StorableParts r.super)
    (hstages : ∀ c ∈ exportStages r, (c p).2.image.length < 0x100000000) :
    P (Change.prepareExport r p).2 := by
  obtain ⟨hs₁, hs, hsize⟩ := forall_exportStages
    (P := fun p => p.image.length < 0x100000000) hstages
  refine keeps_bind (hP.ensureNames h (storable_exportNames hname) hs₁)
    (fun _ p₁ (hp₁ : exportNames r p = _) h₁ => ?_) hsize
  obtain ⟨hs₂, hs₃, hs⟩ := hs p₁ hp₁
  refine keeps_bind (hP.classReference h₁ htype hs₂ hs₃) fun type p₂ hp₂ h₂ => ?_
  obtain ⟨hs₄, hs₅, hs⟩ := hs type p₂ hp₂
  refine keeps_bind (hP.classReference h₂ hsuper hs₄ hs₅) fun super p₃ hp₃ h₃ => ?_
  dsimp only
  split
  · next hnested =>
    rw [keeps_bind_pure]
    exact hP.classReference h₃ (by decide) (hs super p₃ hp₃ hnested).1
  · exact keeps_pure h₃ _

namespace Package.Intact

variable {p : Package} {stored : List (List UInt8)} {r : ExportRequest}

/-- An export whose names and classes are there is added with the packages around it, or nothing
has changed. -/
theorem insertExport (h : p.Intact stored) {type super packageType : ObjectRef}
    (hdata : r.data.length < 0x80000000)
    (hsize : (Change.insertExport r type super packageType p).2.image.length < 0x100000000) :
    (Change.insertExport r type super packageType p).2 = p ∨
      ∃ index p' emptyList k,
        Change.insertExport r type super packageType p = (.ok index, p') ∧
        p'.tables.nameIndex noneName = .ok emptyList ∧
        p'.Intact (stored ++ (List.replicate k (Encode.compact emptyList) ++ [r.data])) := by
  rcases Change.insertExport_cases p r type super packageType with
    ⟨e, hrun, -⟩ | ⟨i, hrun⟩ | ⟨emptyList, k, d, hnone, hd, hrun⟩
  · exact .inl (congrArg Prod.snd hrun)
  · exact .inl (congrArg Prod.snd hrun)
  rw [hrun] at hsize ⊢
  rw [Change.after_bind_pure] at hsize
  rcases h.relocate (t := { p.tables with exports := d.exports }) rfl h.storable
    (fun _ _ _ hp => hd.placed hp) (hd.length_lt hdata) hsize with
    ⟨e, he⟩ | ⟨p', hp', hnames, hintact⟩
  · rw [Change.bind_error he]
    exact .inl rfl
  · rw [Change.bind_ok hp']
    rw [hd.stored_eq h.placed.length] at hintact
    refine .inr ⟨_, p', emptyList, k, rfl, ?_, hintact⟩
    rw [← hnone, Tables.nameIndex, Tables.nameIndex, Tables.nameIndex?, Tables.nameIndex?, hnames]

/-- An export is added with the packages around it that were missing, each of these with an empty
list as its payload, or the payloads are what they were. -/
theorem addExport (h : p.Intact stored) (hname : StorableParts r.name)
    (htype : StorableParts r.type) (hsuper : StorableParts r.super)
    (hdata : r.data.length < 0x80000000)
    (hstages : ∀ c ∈ Change.exportStages r, (c p).2.image.length < 0x100000000)
    (hsize : (Change.addExport r p).2.image.length < 0x100000000) :
    (Change.addExport r p).2.Intact stored ∨
      ∃ index p' emptyList k, Change.addExport r p = (.ok index, p') ∧
        p'.tables.nameIndex noneName = .ok emptyList ∧
        p'.Intact (stored ++ (List.replicate k (Encode.compact emptyList) ++ [r.data])) := by
  have hprepare := stable.prepareExport h hname htype hsuper hstages
  rw [Change.addExport] at hsize ⊢
  rcases hp : Change.prepareExport r p with ⟨e | ⟨type, super, packageType⟩, p'⟩
  · rw [hp] at hprepare
    rw [Change.bind_error hp]
    exact .inl hprepare
  · rw [hp] at hprepare
    rw [Change.bind_ok hp] at hsize ⊢
    rcases hprepare.insertExport hdata hsize with hsame | hadded
    · rw [hsame]
      exact .inl hprepare
    · exact .inr hadded

end Package.Intact

end UnrealPackage
