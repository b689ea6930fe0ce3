import UnrealPackage.Proofs.Package.Change
/-!
# Relocation is exact

`relocatedImage_eq` says what a relocation makes of an image that begins with its header: the header
with new places, what stood between it and the new payloads, the payloads, and the tables. The
tables that it overwrites may be those it was made from: they are in memory, so what becomes of
their old bytes does not matter.

`Change.relocate_ok` adds the reading back: a relocation behind the header succeeds, and the fields
of `Package.Relocated` say what it leaves behind.
-/

namespace UnrealPackage

open Decode

/-! ## The fields that place the tables -/

namespace Header

/-- What stands before the fields that place the tables. -/
def beforeExtents (h : Header) : List UInt8 :=
  Encode.u32 magic ++ Encode.u16 h.version ++ Encode.u16 h.licensee ++ Encode.u32 h.flags

/-- What stands behind the fields that place the tables. -/
def afterExtents (h : Header) : List UInt8 :=
  Encode.guid h.guid ++ Encode.generations h.generations

theorem encode_eq (h : Header) : h.encode = h.beforeExtents ++ (h.extents ++ h.afterExtents) := by
  simp only [encode, beforeExtents, extents, afterExtents, List.append_assoc]

theorem length_beforeExtents (h : Header) : h.beforeExtents.length = Position.names := by
  simp [beforeExtents, Position.names]

theorem length_extents (h : Header) : h.extents.length = 24 := by
  simp [extents, Encode.tableExtent]

end Header

namespace TableBlock

variable (b : TableBlock) (t : Tables) (h : Header)

/-- Other places for the tables take as many bytes. -/
theorem encodedLength_place : (b.place t h).encodedLength = h.encodedLength :=
  rfl

/-- Writing the places of the tables into a header gives the header with these places. -/
theorem writeAt_extents (tail : List UInt8) :
    writeAt (h.encode ++ tail) Header.Position.names (b.place t h).extents =
      (b.place t h).encode ++ tail := by
  rw [h.encode_eq, List.append_assoc, List.append_assoc, ← h.length_beforeExtents,
    writeAt_replace (by rw [Header.length_extents, Header.length_extents]),
    (b.place t h).encode_eq, List.append_assoc, List.append_assoc]
  rfl

end TableBlock

/-! ## The image -/

section Image

variable {cs : Charset} {h : Header} {t : Tables} {tail : List UInt8} {position : Nat}
  {payloads : List PendingPayload}

/-- The tables as they are to stand behind the payloads. -/
def relocatedBlock (cs : Charset) (t : Tables) (position : Nat) (payloads : List PendingPayload) :
    TableBlock :=
  .ofTables cs t (position + (payloads.flatMap PendingPayload.data).length)

/-- A relocation keeps what stands between the header and the new payloads. -/
theorem relocatedImage_eq (hpos : h.encodedLength ≤ position) :
    relocatedImage cs (h.encode ++ tail) h position payloads t =
      ((relocatedBlock cs t position payloads).place t h).encode ++
        ((resize tail (position - h.encodedLength) ++ payloads.flatMap PendingPayload.data) ++
          (relocatedBlock cs t position payloads).bytes) := by
  simp only [relocatedImage]
  generalize hpayload : payloads.flatMap PendingPayload.data = payload
  have hcut := resize_writeAt (h.encode ++ tail) position
    (payload ++ (TableBlock.ofTables cs t (position + payload.length)).bytes)
  rw [List.length_append, ← Nat.add_assoc] at hcut
  rw [hcut, resize_append (by rwa [Header.length_encode]), Header.length_encode, List.append_assoc,
    TableBlock.writeAt_extents, relocatedBlock, hpayload, List.append_assoc]

/-- Below the new payloads, a relocation changes the places of the tables only. -/
theorem getElem?_relocatedImage {image : List UInt8} {i : Nat} (hi : i < position)
    (hfields : i < 12 ∨ 36 ≤ i) :
    (relocatedImage cs image h position payloads t)[i]? = some (image[i]?.getD 0) := by
  simp only [relocatedImage]
  rw [getElem?_writeAt, Header.length_extents, Header.Position.names]
  have hcut : ∀ data : List UInt8, (resize (writeAt image position data)
      (position + data.length))[i]? = some (image[i]?.getD 0) := by
    intro data
    rw [getElem?_resize, if_pos (by omega), getElem?_writeAt, if_pos hi]
    rfl
  have hcut := hcut (payloads.flatMap PendingPayload.data ++
    (TableBlock.ofTables cs t (position + (payloads.flatMap PendingPayload.data).length)).bytes)
  rw [List.length_append, ← Nat.add_assoc] at hcut
  split
  · rw [hcut]
    rfl
  · rw [if_neg (by omega), hcut]

end Image

/-! ## The package -/

/-- A header, a body and a block of tables make a package with the tables at the end. -/
theorem Package.laid_of_block (options : PackageOptions) {h : Header} {t : Tables}
    {image body : List UInt8} {position : Nat}
    (hg : h.generations.length ≤ Header.generationLimit) (hs : ∀ e ∈ t.names, StorableText e.name)
    (hposition : h.encodedLength + body.length = position)
    (himage : image = ((TableBlock.ofTables options.charset t position).place t h).encode ++
      (body ++ (TableBlock.ofTables options.charset t position).bytes))
    (hsize : image.length < 0x100000000) :
    Laid ⟨image, (TableBlock.ofTables options.charset t position).place t h, t, options⟩ body
      (Encode.nameTable options.charset t.names) := by
  have hlength := hsize
  rw [himage, List.length_append, Header.length_encode, TableBlock.encodedLength_place] at hlength
  simp only [TableBlock.ofTables, TableBlock.bytes, List.length_append] at hlength
  have hn := Encode.four_mul_length_le_nameTable options.charset t.names
  have hi := Encode.four_mul_length_le_importTable t.imports
  have he := Encode.four_mul_length_le_exportTable t.exports
  have hnames : (Encode.nameTable options.charset t.names).length < 0x100000000 := by omega
  constructor
  · simp only [himage, TableBlock.ofTables, TableBlock.bytes, List.append_assoc]
  · exact hsize
  · exact hg
  · exact reads_nameTable hs hnames
  all_goals
    simp only [TableBlock.encodedLength_place, hposition]
    simp only [TableBlock.place, TableBlock.ofTables]
    exact TableExtent.places_at (by omega) (by omega)

/-- The package that a relocation leaves behind. -/
def Package.relocated (p : Package) (t : Tables) (payloads : List PendingPayload)
    (position : Nat) : Package where
  image := relocatedImage p.options.charset p.image p.header position payloads t
  header := (relocatedBlock p.options.charset t position payloads).place t p.header
  tables := t
  options := p.options

section Package

variable {p : Package} {t : Tables} {payloads : List PendingPayload} {position : Nat}
  {tail : List UInt8}

/-- A relocated image is the header, what stood behind it, the payloads and the tables. -/
theorem Package.image_relocated (himage : p.image = p.header.encode ++ tail)
    (hpos : p.header.encodedLength ≤ position) :
    (p.relocated t payloads position).image = (p.relocated t payloads position).header.encode ++
      ((resize tail (position - p.header.encodedLength) ++
        payloads.flatMap PendingPayload.data) ++
          (relocatedBlock p.options.charset t position payloads).bytes) :=
  (congrArg (relocatedImage _ · _ _ _ _) himage).trans (relocatedImage_eq hpos)

/-- A relocation behind the header gives the layout with the tables at the end. -/
theorem Package.relocated_laid (himage : p.image = p.header.encode ++ tail)
    (hg : p.header.generations.length ≤ Header.generationLimit)
    (hpos : p.header.encodedLength ≤ position) (hs : ∀ e ∈ t.names, StorableText e.name)
    (hsize : (p.relocated t payloads position).image.length < 0x100000000) :
    (p.relocated t payloads position).Laid
      (resize tail (position - p.header.encodedLength) ++ payloads.flatMap PendingPayload.data)
      (Encode.nameTable p.options.charset t.names) := by
  refine Package.laid_of_block p.options hg hs ?_ (Package.image_relocated himage hpos) hsize
  rw [List.length_append, length_resize, ← Nat.add_assoc, Nat.add_sub_cancel' hpos]

end Package

/-- Placing payloads changes nothing of the exports but where their payloads are. -/
theorem map_placePayloads {α : Type} {f : ExportEntry → α}
    (hf : ∀ e : ExportEntry, ∀ offset size, f { e with offset, size } = f e)
    (exports : List ExportEntry) (position : Nat) (payloads : List PendingPayload) :
    (placePayloads exports position payloads).map f = exports.map f := by
  induction payloads generalizing exports position with
  | nil => rfl
  | cons pending payloads ih =>
    rw [placePayloads, ih]
    refine List.ext_getElem? fun i => ?_
    rw [placePayload, List.getElem?_map, List.getElem?_map, List.getElem?_modify]
    cases exports[i]? with
    | none => rfl
    | some e =>
      dsimp only [Option.map_eq_map, Option.map_some]
      split
      · rw [hf]
      · rfl

/-- Exports in front of those whose payloads are placed are left as they are. -/
theorem isPrefix_placePayloads {base exports : List ExportEntry} {position : Nat}
    {payloads : List PendingPayload} (h : base <+: exports)
    (hbehind : ∀ x ∈ payloads, base.length ≤ x.index) :
    base <+: placePayloads exports position payloads := by
  induction payloads generalizing exports position with
  | nil => exact h
  | cons pending payloads ih =>
    obtain ⟨hindex, hbehind⟩ := List.forall_mem_cons.1 hbehind
    refine ih ?_ hbehind
    have hshort : (exports.take base.length).length ≤ pending.index :=
      Nat.le_trans (List.length_take_le _ _) hindex
    rw [placePayload, List.prefix_iff_eq_take, List.take_modify, List.modify_eq_self hshort]
    exact List.prefix_iff_eq_take.1 h

/-- What a relocation of `p` with the tables `t` and the bytes `payload` from `position` on has made
of it. -/
structure Package.Relocated (p p' : Package) (t : Tables) (payload : List UInt8)
    (position : Nat) : Prop where
  tables : p'.tables = t
  options : p'.options = p.options
  header : p'.header = { p.header with
    names := p'.header.names, imports := p'.header.imports, exports := p'.header.exports }
  laid : ∃ between : List UInt8, p.header.encodedLength + between.length = position ∧
    p'.Laid (between ++ payload) (Encode.nameTable p.options.charset t.names)
  bytes : ∀ i < position, i < Header.Position.names ∨ Header.Position.guid ≤ i →
    p'.image[i]? = some (p.image[i]?.getD 0)

namespace Package.Relocated

variable {p p' : Package} {t : Tables} {payload : List UInt8} {position : Nat}

theorem encodedLength (h : p.Relocated p' t payload position) :
    p'.header.encodedLength = p.header.encodedLength := by
  rw [h.header]
  rfl

/-- The tables begin behind the payloads. -/
theorem names_offset (h : p.Relocated p' t payload position) :
    p'.header.names.offset.toNat = position + payload.length := by
  obtain ⟨between, hbetween, hlaid⟩ := h.laid
  rw [hlaid.names.2, h.encodedLength, List.length_append, ← Nat.add_assoc, hbetween]

theorem position_le (h : p.Relocated p' t payload position) :
    position + payload.length ≤ p'.image.length := by
  obtain ⟨between, hbetween, hlaid⟩ := h.laid
  rw [hlaid.length_image, h.encodedLength, List.length_append, ← Nat.add_assoc, hbetween]
  omega

/-- The payloads stand at the position that they were given. -/
theorem standsAt (h : p.Relocated p' t payload position) :
    StandsAt p'.image position payload := by
  obtain ⟨between, hbetween, hlaid⟩ := h.laid
  have himage := hlaid.image
  rw [List.append_assoc between, ← List.append_assoc p'.header.encode] at himage
  have hfront : (p'.header.encode ++ between).length = position := by
    rw [List.length_append, Header.length_encode, h.encodedLength, hbetween]
  rw [himage, ← hfront]
  exact standsAt_append _ _ _

end Package.Relocated

namespace Change

variable {p : Package} {t : Tables} {payloads : List PendingPayload} {position : Nat}
  {tail : List UInt8}

/-- The tables that a relocation stores: those given, with the payloads in their places. -/
def placedTables (t : Tables) (position : Nat) (payloads : List PendingPayload) : Tables :=
  { t with exports := placePayloads t.exports position payloads }

theorem image_relocate (hw : p.options.writable = true) (hd : p.dataEnd = .ok position) :
    (relocate t payloads p).2.image =
      (p.relocated (placedTables t position payloads) payloads position).image := by
  rw [relocate, bind_ok (ensureWritable_ok hw), bind_ok (gets_ok hd), bind_update]
  exact image_reload _

/-- A relocation behind the header succeeds, and reads back what it stored. -/
theorem relocate_ok (hw : p.options.writable = true) (hd : p.dataEnd = .ok position)
    (himage : p.image = p.header.encode ++ tail)
    (hg : p.header.generations.length ≤ Header.generationLimit)
    (hpos : p.header.encodedLength ≤ position) (hpackage : t.package = p.tables.package)
    (hs : ∀ e ∈ t.names, StorableText e.name)
    (hsize : (relocate t payloads p).2.image.length < 0x100000000) :
    ∃ p', relocate t payloads p = (.ok (), p') ∧ p.Relocated p' (placedTables t position payloads)
      (payloads.flatMap PendingPayload.data) position := by
  rw [image_relocate hw hd] at hsize
  have hlaid := Package.relocated_laid (t := placedTables t position payloads) himage hg hpos hs
    hsize
  have hread := hlaid.readImage
  refine ⟨p.relocated (placedTables t position payloads) payloads position, ?_, rfl, rfl, rfl, ?_,
    fun i hi hfields => getElem?_relocatedImage hi hfields⟩
  · rw [relocate, bind_ok (ensureWritable_ok hw), bind_ok (gets_ok hd), bind_update]
    refine reload_eq (h := (p.relocated _ payloads position).header) ?_
    rw [← hpackage]
    exact hread
  · refine ⟨_, ?_, hlaid⟩
    rw [length_resize]
    exact Nat.add_sub_cancel' hpos

/-- A relocation of a package without payloads changes nothing. -/
theorem relocate_error {e : Error} (hw : p.options.writable = true) (hd : p.dataEnd = .error e) :
    relocate t payloads p = (.error e, p) := by
  rw [relocate, bind_ok (ensureWritable_ok hw), bind_error (gets_error hd)]

/-- Tables made from those of a package are stored without new payloads. -/
theorem relocateTables_eq (edit : Tables → Tables) (p : Package) :
    relocateTables edit p = relocate (edit p.tables) [] p := by
  rw [relocateTables, bind_look]

end Change

end UnrealPackage
