import UnrealPackage.Proofs.Package.TableEdit
/-!
# Header fields written in place

`HeaderField` is what a setter is called with. `HeaderField.change_of_fits` says what a call does:
it writes the bytes of the field in its place, in the image and in memory. `Package.Headed p tail`
is what every call keeps (`Headed.step`, `Headed.run`): the image is the encoding of the header in
memory with `tail` behind it.

The places of the tables are written number by number; `patchExtents_eq` is that this is one write.
-/

namespace UnrealPackage

/-! ## Fields -/

/-- A value for one field of the header. -/
inductive HeaderField
  | version (version : UInt16)
  | licensee (licensee : UInt16)
  | flags (flags : UInt32)
  | guid (guid : Guid)
  | generations (generations : List Generation)

namespace HeaderField

/-- The call that sets the field. -/
def change : HeaderField → Change Unit
  | version v => Change.setVersion v
  | licensee v => Change.setLicensee v
  | flags v => Change.setFlags v
  | guid v => Change.setGuid v
  | generations v => Change.setGenerations v

/-- The header with the field. -/
def set : HeaderField → Header → Header
  | version v, h => { h with version := v }
  | licensee v, h => { h with licensee := v }
  | flags v, h => { h with flags := v }
  | guid v, h => { h with guid := v }
  | generations v, h => { h with generations := v }

/-- Where the field stands. -/
def position : HeaderField → Nat
  | version _ => Header.Position.version
  | licensee _ => Header.Position.licensee
  | flags _ => Header.Position.flags
  | guid _ => Header.Position.guid
  | generations _ => Header.Position.generations

/-- The bytes of the field. -/
def bytes : HeaderField → List UInt8
  | version v => Encode.u16 v
  | licensee v => Encode.u16 v
  | flags v => Encode.u32 v
  | guid v => Encode.guid v
  | generations v => Encode.generations v

/-- Whether the field is as long as the one in the header. -/
def Fits (h : Header) : HeaderField → Prop
  | generations v => v.length = h.generations.length
  | _ => True

/-- The package that a call leaves behind, whatever it gives. -/
def after (p : Package) (f : HeaderField) : Package :=
  (f.change p).2

variable {f : HeaderField} {h : Header} {p : Package}

/-- The bytes of a field in its place make the header with the field. -/
theorem patched (hf : f.Fits h) : h.Patched (f.set h) f.position f.bytes := by
  cases f with
  | version v => exact h.patched_version v
  | licensee v => exact h.patched_licensee v
  | flags v => exact h.patched_flags v
  | guid v => exact h.patched_guid v
  | generations v => exact h.patched_generations hf

theorem encodedLength_set (hf : f.Fits h) : (f.set h).encodedLength = h.encodedLength := by
  cases f with
  | generations v => exact congrArg (fun n => Header.Position.generations + 4 + 8 * n) hf
  | _ => rfl

/-- A field that fits is written, in the image and in memory. -/
theorem change_of_fits (hw : p.options.writable = true) (hf : f.Fits p.header) :
    f.change p = (.ok (), { p with
      image := writeAt p.image f.position f.bytes
      header := f.set p.header }) := by
  have hfield := Change.setField_ok hw f.position f.bytes f.set
  cases f with
  | generations v =>
    have hlength : v.length = p.header.generations.length := hf
    rw [change, Change.setGenerations, Change.bind_ok (Change.ensureWritable_ok hw),
      Change.bind_ok (Change.gets_ok (if_pos hlength))]
    exact hfield
  | _ => exact hfield

/-- Another number of generations is refused before anything is written. -/
theorem change_of_not_fits (hw : p.options.writable = true) (hf : ¬f.Fits p.header) :
    ∃ v, f = generations v ∧ f.change p =
      (.error (.generationCountFixed p.header.generations.length v.length), p) := by
  cases f with
  | generations v =>
    have hlength : ¬v.length = p.header.generations.length := hf
    refine ⟨v, rfl, ?_⟩
    rw [change, Change.setGenerations, Change.bind_ok (Change.ensureWritable_ok hw),
      Change.bind_error (Change.gets_error (if_neg hlength))]
  | _ => exact absurd trivial hf

end HeaderField

/-! ## Runs -/

/-- The package may be written, and its image is its header in memory and then `tail`. -/
structure Package.Headed (p : Package) (tail : List UInt8) : Prop where
  writable : p.options.writable = true
  image : p.image = p.header.encode ++ tail

namespace Package.Headed

variable {p : Package} {tail : List UInt8}

/-- A package that was loaded for writing begins with its header. -/
theorem of_load {name : String} {options : PackageOptions} {image : List UInt8}
    (hload : Package.load name options image = .ok p) (hw : options.writable = true) :
    p.Headed (image.drop p.header.encodedLength) := by
  obtain ⟨hread, rfl, rfl⟩ := Package.load_eq_ok.1 hload
  obtain ⟨⟨tail, hheader⟩, -⟩ := readImage_eq_ok.1 hread
  obtain ⟨-, himage⟩ := Header.decode_eq_ok.1 hheader
  refine ⟨hw, ?_⟩
  rw [himage, ← Header.length_encode, List.drop_left]

theorem take_image (h : p.Headed tail) :
    p.image.take p.header.encodedLength = p.header.encode := by
  rw [h.image, ← Header.length_encode, List.take_left]

theorem drop_image (h : p.Headed tail) : p.image.drop p.header.encodedLength = tail := by
  rw [h.image, ← Header.length_encode, List.drop_left]

/-- A call keeps what stands behind the header, and the header its length. -/
theorem step (h : p.Headed tail) (f : HeaderField) :
    (f.after p).Headed tail ∧
      (f.after p).header.encodedLength = p.header.encodedLength := by
  by_cases hf : f.Fits p.header
  · rw [HeaderField.after, HeaderField.change_of_fits h.writable hf]
    refine ⟨⟨h.writable, ?_⟩, HeaderField.encodedLength_set hf⟩
    rw [h.image]
    exact (HeaderField.patched hf).writeAt tail
  · obtain ⟨v, -, hrun⟩ := HeaderField.change_of_not_fits h.writable hf
    rw [HeaderField.after, hrun]
    exact ⟨h, rfl⟩

/-- So do any number of calls. -/
theorem run (h : p.Headed tail) (fields : List HeaderField) :
    (fields.foldl HeaderField.after p).Headed tail ∧
      (fields.foldl HeaderField.after p).header.encodedLength = p.header.encodedLength := by
  induction fields generalizing p with
  | nil => exact ⟨h, rfl⟩
  | cons f fields ih =>
    obtain ⟨hheaded, hlength⟩ := h.step f
    obtain ⟨hrest, hlength'⟩ := ih hheaded
    exact ⟨hrest, hlength'.trans hlength⟩

end Package.Headed

/-! ## The places of the tables -/

/-- Writes count and position of each table into its header, one number after the other. -/
def patchExtents (image : List UInt8) (names exports imports : TableExtent) : List UInt8 :=
  let image := writeAt image Header.Position.names (Encode.u32 names.count)
  let image := writeAt image (Header.Position.names + 4) (Encode.u32 names.offset)
  let image := writeAt image Header.Position.exports (Encode.u32 exports.count)
  let image := writeAt image (Header.Position.exports + 4) (Encode.u32 exports.offset)
  let image := writeAt image Header.Position.imports (Encode.u32 imports.count)
  writeAt image (Header.Position.imports + 4) (Encode.u32 imports.offset)

/-- The numbers lie side by side, so they can be written at once. -/
theorem patchExtents_eq (image : List UInt8) (h : Header) :
    patchExtents image h.names h.exports h.imports =
      writeAt image Header.Position.names h.extents := by
  have hstep : ∀ (data : List UInt8) (position : Nat) (v : UInt32),
      position = Header.Position.names + data.length →
      writeAt (writeAt image Header.Position.names data) position (Encode.u32 v) =
        writeAt image Header.Position.names (data ++ Encode.u32 v) := by
    rintro data _ v rfl
    exact writeAt_writeAt image _ data (Encode.u32 v)
  rw [patchExtents, hstep, hstep, hstep, hstep, hstep, Header.extents, Encode.tableExtent,
    Encode.tableExtent, Encode.tableExtent]
  all_goals simp [Header.Position.names, Header.Position.exports, Header.Position.imports]

/-- Other places for the tables are written over the old ones. -/
theorem Header.patched_extents (h : Header) (names exports imports : TableExtent) :
    h.Patched { h with names, exports, imports } Position.names
      (extents { h with names, exports, imports }) := by
  refine ⟨h.beforeExtents, h.extents, h.afterExtents, h.length_beforeExtents, ?_, h.encode_eq, ?_⟩
  · rw [length_extents, length_extents]
  · rw [encode_eq]
    rfl

/-! ## The header in the image -/

/-- Whatever image a package is loaded from for writing, and whatever fields of its header are set,
in whatever order and with whatever outcome: the image begins with the encoding of the header in
memory, and what stands behind it is as it was loaded. A call changes one field in memory and
nothing else; only another number of generations is refused, and then nothing changes. Likewise,
writing the places of the tables over a header that is encoded gives the encoding of the header with
these places, and it is the write that every change of the tables makes. -/
theorem Package.header_written_in_place :
    (∀ {name : String} {options : PackageOptions} {image : List UInt8} {start : Package},
      Package.load name options image = .ok start → options.writable = true →
      ∀ (fields : List HeaderField) (p : Package), p = fields.foldl HeaderField.after start →
        p.image.take p.header.encodedLength = p.header.encode ∧
        p.header.encodedLength = start.header.encodedLength ∧
        p.image.drop p.header.encodedLength = image.drop start.header.encodedLength ∧
        ∀ f : HeaderField,
          (f.Fits p.header → ∃ image', f.change p =
            (.ok (), { p with image := image', header := f.set p.header })) ∧
          (¬f.Fits p.header → ∃ generations, f = .generations generations ∧ f.change p =
            (.error (.generationCountFixed p.header.generations.length generations.length), p))) ∧
    ∀ (h : Header) (tail : List UInt8) (names exports imports : TableExtent),
      patchExtents (h.encode ++ tail) names exports imports =
        Header.encode { h with names, exports, imports } ++ tail ∧
      patchExtents (h.encode ++ tail) names exports imports =
        writeAt (h.encode ++ tail) Header.Position.names
          (Header.extents { h with names, exports, imports }) := by
  refine ⟨?_, ?_⟩
  · rintro name options image start hload hw fields p rfl
    obtain ⟨hheaded, hlength⟩ := (Headed.of_load hload hw).run fields
    refine ⟨hheaded.take_image, hlength, hheaded.drop_image, fun f => ⟨fun hf => ?_, fun hf => ?_⟩⟩
    · exact ⟨_, HeaderField.change_of_fits hheaded.writable hf⟩
    · exact HeaderField.change_of_not_fits hheaded.writable hf
  · intro h tail names exports imports
    have hpatch := patchExtents_eq (h.encode ++ tail) { h with names, exports, imports }
    exact ⟨hpatch.trans ((h.patched_extents names exports imports).writeAt tail), hpatch⟩

/-- The version and the generations of a package are set; two generations have no room there. -/
theorem Package.header_written_in_place_single :
    let fields : List HeaderField :=
      [.version 69, .generations [⟨1, 1⟩, ⟨2, 2⟩], .generations [⟨7, 8⟩]]
    let p := fields.foldl HeaderField.after single
    p.header = { single.header with version := 69, generations := [⟨7, 8⟩] } ∧
      p.image.take 64 = p.header.encode ∧ p.image.drop 64 = single.image.drop 64 ∧
      (HeaderField.generations []).change p = (.error (.generationCountFixed 1 0), p) := by
  intro fields p
  have hload : Package.load "P" single.options single.image = .ok single := by rfl
  have hheader : p.header = { single.header with version := 69, generations := [⟨7, 8⟩] } := by rfl
  obtain ⟨hfront, hlength, hback, hnext⟩ :=
    Package.header_written_in_place.1 hload rfl fields p rfl
  rw [hlength] at hfront hback
  refine ⟨hheader, hfront, hback, ?_⟩
  obtain ⟨_, hv, hrun⟩ := (hnext (.generations [])).2 (by rw [hheader]; exact nofun)
  cases hv
  rwa [hheader] at hrun

end UnrealPackage
