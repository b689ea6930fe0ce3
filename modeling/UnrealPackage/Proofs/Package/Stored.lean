import UnrealPackage.Proofs.Package.Draft
/-!
# What a draft stores loads back

`Draft.load_store`: storing a draft that makes less than 2 GiB succeeds whatever the storage held
before, and opening what is then stored gives a package that `Carries` the draft: its fields, names
and imports, its exports with the places that their payloads got, and the payloads themselves.

How large the image will be is known before it is made: `Draft.placed` gives each export the place
of its payload, which decides how many bytes the record of the export takes. `Draft.package` is the
package that the draft becomes, and has the layout of all packages that were written.
-/

namespace UnrealPackage

open Decode

namespace Draft

/-! ## The places of the payloads -/

section Payloads

variable {items : List (ExportEntry × List UInt8)} {position : Nat}

/-- A payload is no longer than all of them. -/
theorem length_le_flatMap {e : ExportEntry} {data : List UInt8} (hx : (e, data) ∈ items) :
    data.length ≤ (items.flatMap Prod.snd).length :=
  (List.sublist_flatten_of_mem (List.mem_map_of_mem (f := Prod.snd) hx)).length_le

/-- The first payloads are no longer than all of them. -/
theorem length_flatMap_take_le (items : List (ExportEntry × List UInt8)) (i : Nat) :
    ((items.take i).flatMap Prod.snd).length ≤ (items.flatMap Prod.snd).length := by
  have h := congrArg (fun items => (List.flatMap Prod.snd items).length)
    (List.take_append_drop i items)
  simp only [List.flatMap_append, List.length_append] at h
  omega

/-- The exports with their payloads one after the other from `position` on, as long as positions
fit. -/
def placedFrom : Nat → List (ExportEntry × List UInt8) → List ExportEntry
  | _, [] => []
  | position, (e, data) :: rest =>
    { e with offset := Int32.ofNat position, size := Int32.ofNat data.length } ::
      placedFrom (position + data.length) rest

/-- Payloads that all lie below 2 GiB can be placed. -/
theorem placeExports_eq (h : position + (items.flatMap Prod.snd).length < 0x80000000) :
    placeExports position items = .ok (placedFrom position items) := by
  induction items generalizing position with
  | nil => rfl
  | cons x items ih =>
    obtain ⟨e, data⟩ := x
    simp only [List.flatMap_cons, List.length_append] at h
    have hrest : placeExports (position + data.length) items =
      .ok (placedFrom (position + data.length) items) := ih (by omega)
    rw [placeExports, if_neg (by omega)]
    exact except_bind_eq_ok.2 ⟨_, hrest, rfl⟩

/-- The place of a payload is behind all payloads that were added before it. -/
theorem getElem?_placedFrom {i : Nat} {e : ExportEntry} {data : List UInt8}
    (hi : items[i]? = some (e, data)) : (placedFrom position items)[i]? = some { e with
      offset := Int32.ofNat (position + ((items.take i).flatMap Prod.snd).length)
      size := Int32.ofNat data.length } := by
  induction items generalizing position i with
  | nil => cases hi
  | cons x items ih =>
    cases i with
    | zero =>
      cases hi
      rfl
    | succ i =>
      rw [List.getElem?_cons_succ] at hi
      rw [placedFrom, List.getElem?_cons_succ, ih hi, List.take_succ_cons, List.flatMap_cons,
        List.length_append, Nat.add_assoc]

theorem length_placedFrom (position : Nat) (items : List (ExportEntry × List UInt8)) :
    (placedFrom position items).length = items.length := by
  induction items generalizing position with
  | nil => rfl
  | cons x items ih => rw [placedFrom, List.length_cons, List.length_cons, ih]

end Payloads

/-- The exports of the draft, each with the place of its payload behind the header. -/
def placed (d : Draft) : List ExportEntry :=
  placedFrom d.header.encodedLength d.exports

/-- How many bytes the image of the draft takes. -/
def imageLength (d : Draft) (cs : Charset) : Nat :=
  d.header.encodedLength + (d.exports.flatMap Prod.snd).length +
    (Encode.nameTable cs d.names).length + (Encode.importTable d.imports).length +
    (Encode.exportTable d.placed).length

end Draft

/-! ## What a package has of a draft -/

/-- The package is what the draft was to become. -/
structure Package.Carries (p : Package) (d : Draft) : Prop where
  version : p.header.version = d.version
  licensee : p.header.licensee = d.licensee
  flags : p.header.flags = d.flags
  guid : p.header.guid = d.guid
  /-- A draft without generations gets one, with the counts that it has in the end. -/
  generations : p.header.generations = if d.generations.isEmpty then
    [⟨UInt32.ofNat d.exports.length, UInt32.ofNat d.names.length⟩] else d.generations
  names : p.tables.names = d.names
  imports : p.tables.imports = d.imports
  exportCount : p.tables.exports.length = d.exports.length
  /-- An export is the one that was added, but for the place of its payload: that is behind the
  header and all payloads that were added before. -/
  exports : ∀ (i : Nat) e data, d.exports[i]? = some (e, data) →
    ∃ e', p.tables.exports[i]? = some e' ∧
      e' = { e with size := e'.size, offset := e'.offset } ∧ e'.size.toInt = data.length ∧
      e'.offset.toInt = ↑(p.header.encodedLength + ((d.exports.take i).flatMap Prod.snd).length)
  payloads : ∀ (i : Nat) e data, d.exports[i]? = some (e, data) → p.exportData i = .ok data
  /-- The payloads lie behind the header without a gap, and the tables behind them. -/
  image : ∃ tables, p.image = p.header.encode ++ (d.exports.flatMap Prod.snd ++ tables)
  begins : p.header.names.offset.toNat =
    p.header.encodedLength + (d.exports.flatMap Prod.snd).length
  inRow : p.TablesInRow

namespace Draft

variable {d : Draft} {cs : Charset} {name : String} {options : PackageOptions}

/-- The tables of the package called `name` that the draft becomes. -/
def tables (d : Draft) (name : String) : Tables :=
  ⟨name, d.names, d.imports, d.placed⟩

/-- The package called `name` that the draft becomes. -/
def package (d : Draft) (name : String) (options : PackageOptions) : Package :=
  let payload := d.exports.flatMap Prod.snd
  let block := TableBlock.ofTables options.charset (d.tables name)
    (d.header.encodedLength + payload.length)
  let header := block.place (d.tables name) d.header
  ⟨header.encode ++ (payload ++ block.bytes), header, d.tables name, options⟩

/-! ## The draft as a package -/

/-- Below 2 GiB, a draft has an image, and it is that of the package. -/
theorem image_eq (name : String) (hsize : d.imageLength options.charset < 0x80000000) :
    d.image options.charset = .ok (d.package name options).image := by
  have hpayload : d.header.encodedLength + (d.exports.flatMap Prod.snd).length < 0x80000000 := by
    rw [imageLength] at hsize
    omega
  refine except_bind_eq_ok.2 ⟨d.placed, placeExports_eq hpayload, ?_⟩
  exact congrArg Except.ok (List.append_assoc _ _ _)

/-- The image has the length that was foreseen. -/
theorem length_image (d : Draft) (name : String) (options : PackageOptions) :
    (d.package name options).image.length = d.imageLength options.charset := by
  have hheader : (d.package name options).header.encode.length = d.header.encodedLength :=
    Header.length_encode _
  have himage : (d.package name options).image = (d.package name options).header.encode ++
      (d.exports.flatMap Prod.snd ++ (Encode.nameTable options.charset d.names ++
        Encode.importTable d.imports ++ Encode.exportTable d.placed)) := rfl
  rw [himage, List.length_append, hheader, imageLength]
  simp only [List.length_append]
  omega

/-- In an image below 2 GiB, every name has a length that can be stored. -/
theorem storable_names (hsize : d.imageLength cs < 0x80000000) :
    ∀ e ∈ d.names, StorableText e.name := by
  intro e he
  have hle : (Encode.nameEntry cs e).length ≤ (Encode.nameTable cs d.names).length :=
    (List.sublist_flatten_of_mem (List.mem_map_of_mem he)).length_le
  rw [Encode.nameEntry, List.length_append] at hle
  rw [imageLength] at hsize
  have hname : (Encode.text cs e.name).length < 0x80000000 := by omega
  exact storable_of_length hname

/-- The package has the layout of all that were written. -/
theorem laid_package (name : String) (hg : d.generations.length ≤ Header.generationLimit)
    (hsize : d.imageLength options.charset < 0x80000000) :
    (d.package name options).Laid (d.exports.flatMap Prod.snd)
      (Encode.nameTable options.charset d.names) := by
  have hlimit : d.header.generations.length ≤ Header.generationLimit := by
    rw [header]
    dsimp only
    split
    · exact (by decide : 1 ≤ Header.generationLimit)
    · exact hg
  have hlength : (d.package name options).image.length < 0x100000000 := by
    rw [length_image]
    omega
  exact Package.laid_of_block options hlimit (storable_names hsize) rfl rfl hlength

/-- Each payload of the package lies where its export says. -/
theorem placed_package (name : String) (hg : d.generations.length ≤ Header.generationLimit)
    (hsize : d.imageLength options.charset < 0x80000000) :
    Placed (d.package name options).image d.header.encodedLength
      (d.header.encodedLength + (d.exports.flatMap Prod.snd).length) d.placed
      (d.exports.map Prod.snd) := by
  have hstands := (laid_package name hg hsize).standsAt_body
  rw [imageLength] at hsize
  refine placed_placeExports (placeExports_eq (by omega)) (fun x hx => ?_) hstands
  have hle := length_le_flatMap hx
  omega

/-- The package is what the draft was to become. -/
theorem carries_package (name : String) (hg : d.generations.length ≤ Header.generationLimit)
    (hsize : d.imageLength options.charset < 0x80000000) :
    (d.package name options).Carries d := by
  have hlaid := laid_package name hg hsize
  have hplaced := placed_package name hg hsize
  constructor
  case version | licensee | flags | guid | generations | names | imports => rfl
  case exportCount => exact length_placedFrom _ _
  case exports =>
    intro i e data hi
    have hbefore := length_flatMap_take_le d.exports i
    have hdata := length_le_flatMap (List.mem_of_getElem? hi)
    rw [imageLength] at hsize
    refine ⟨_, getElem?_placedFrom hi, rfl, ?_, ?_⟩
    · exact Int32.toInt_ofNat_of_lt (by omega)
    · exact Int32.toInt_ofNat_of_lt (by omega)
  case payloads =>
    intro i e data hi
    have he : (placedFrom d.header.encodedLength d.exports)[i]? = _ := getElem?_placedFrom hi
    have hdata : (d.exports.map Prod.snd)[i]? = some data := by
      rw [List.getElem?_map, hi]
      rfl
    exact Package.exportData_eq_ok he (hplaced.holds he hdata).payload
  case image => exact ⟨_, rfl⟩
  case begins => exact hlaid.names.2
  case inRow => exact hlaid.tablesInRow

/-- A draft that makes less than 2 GiB is stored whatever the storage held, and what is stored is
opened as a package that carries the draft. -/
theorem load_store (d : Draft) (name : String) (options : PackageOptions) (storage : List UInt8)
    (hg : d.generations.length ≤ Header.generationLimit)
    (hsize : d.imageLength options.charset < 0x80000000) :
    ∃ p, d.store options.charset storage = .ok p.image ∧
      p.image.length = d.imageLength options.charset ∧
      Package.load name options p.image = .ok p ∧ p.Carries d := by
  refine ⟨d.package name options, ?_, d.length_image name options, ?_, ?_⟩
  · exact store_eq_ok.2 (image_eq name hsize)
  · exact (laid_package name hg hsize).load
  · exact carries_package name hg hsize

/-- A draft with a name that the charset does not hold, and with an export that has no payload
between two that have one. -/
def sparse : Draft where
  version := 68
  licensee := 29
  flags := 1
  guid := ⟨1, 2, 3, 4⟩
  generations := []
  names := [⟨"None", 0⟩, ⟨"Чай", 7⟩]
  imports := [⟨0, 1, .none, -1⟩]
  exports := [(⟨.none, .none, .none, 0, 0, -5, -9⟩, [7, 8]),
    (⟨.none, .none, .none, 1, 4, 9, 9⟩, []), (⟨⟨-1⟩, .none, ⟨1⟩, 1, 4, 0, 0⟩, [9])]

/-- Storing it cuts off the rest of what the storage held. -/
theorem load_store_sparse :
    ∃ p, sparse.store .windows1252 (List.replicate 500 0xFF) = .ok p.image ∧
      p.image.length = sparse.imageLength .windows1252 ∧
      Package.load "Test" {} p.image = .ok p ∧ p.Carries sparse := by
  have hsize : sparse.imageLength .windows1252 < 0x80000000 := by decide +kernel
  exact load_store sparse "Test" {} (List.replicate 500 0xFF) (by decide) hsize

end Draft

end UnrealPackage
