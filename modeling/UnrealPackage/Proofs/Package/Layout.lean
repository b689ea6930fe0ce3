import UnrealPackage.Package.Relocation
import UnrealPackage.Proofs.Package.Header
import UnrealPackage.Proofs.Tables.Entry
/-!
# The layout of a package

`Package.Laid p body nameBytes` is the layout that every package has once it was written: the image
is the header, a body for the payloads, and the name, import and export tables in a row, and the
header says so. What is in memory is then what the image says (`Laid.load`), and each table spans
the bytes up to the next one (`Laid.tablesInRow`).

The bytes of the name table are a parameter: a package may be opened with another charset than it
was written with, and writing its names again would give other bytes.
-/

namespace UnrealPackage

open Decode

/-! ## Reading tables -/

/-- A header places a table of `count` records at `position`. -/
def TableExtent.Places (e : TableExtent) (count position : Nat) : Prop :=
  e.count.toNat = count ∧ e.offset.toNat = position

theorem TableExtent.places_at {count position : Nat} (hc : count < 0x100000000)
    (hp : position < 0x100000000) : (TableExtent.at count position).Places count position :=
  ⟨UInt32.toNat_ofNat_of_lt' hc, UInt32.toNat_ofNat_of_lt' hp⟩

/-- The records of a table take exactly the bytes from its place to `stop`. -/
def TableExtent.Spans {α : Type} (e : TableExtent) (image : List UInt8) (stop : Nat)
    (record : Decode α) (records : List α) : Prop :=
  e.count.toNat = records.length ∧ e.offset.toNat ≤ stop ∧ stop ≤ image.length ∧
    Decode.times record e.count.toNat ((image.take stop).drop e.offset.toNat) = .ok (records, [])

section Table

variable {α : Type} {e : TableExtent} {front stored rest image : List UInt8} {record : Decode α}
  {records : List α}

/-- A table is read if its records are, from where it begins on. -/
theorem readTable_eq_ok : readTable image e record = .ok records ↔ ∃ rest,
    Decode.times record e.count.toNat (image.drop e.offset.toNat) = .ok (records, rest) := by
  simp only [readTable, except_bind_eq_ok, Prod.exists]
  constructor
  · rintro ⟨records', rest, h, hp⟩
    cases hp
    exact ⟨rest, h⟩
  · rintro ⟨rest, h⟩
    exact ⟨records, rest, h, rfl⟩

theorem readTable_of_reads (hr : Reads (Decode.times record records.length) stored records)
    (he : e.Places records.length front.length) :
    readTable (front ++ (stored ++ rest)) e record = .ok records := by
  rw [readTable_eq_ok, he.1, he.2, List.drop_left]
  exact ⟨rest, hr rest⟩

/-- A table that stands between other bytes spans its records. -/
theorem spans_of_reads (rest : List UInt8)
    (hr : Reads (Decode.times record records.length) stored records)
    (he : e.Places records.length front.length) :
    e.Spans (front ++ (stored ++ rest)) (front.length + stored.length) record records := by
  refine ⟨he.1, by rw [he.2]; omega, by simp only [List.length_append]; omega, ?_⟩
  have htake : (front ++ (stored ++ rest)).take (front.length + stored.length) =
      front ++ (stored ++ []) := by
    rw [List.append_nil, ← List.append_assoc, ← List.length_append, List.take_left]
  rw [he.1, he.2, htake, List.drop_left]
  exact hr []

/-- A table is read from what is stored where it begins. -/
theorem readTable_of_standsAt (hr : Reads (Decode.times record records.length) stored records)
    (hcount : e.count.toNat = records.length) (hs : StandsAt image e.offset.toNat stored) :
    readTable image e record = .ok records := by
  obtain ⟨rest, hb⟩ := standsAt_iff.1 hs
  obtain ⟨himage, -⟩ := bytes_eq_ok.1 hb
  rw [readTable_eq_ok, hcount, himage]
  exact ⟨rest, hr rest⟩

/-- What a table spans are bytes that are read as its records wherever they stand. -/
theorem TableExtent.Spans.exists_stored {stop : Nat} (hf : Framed record)
    (h : e.Spans image stop record records) :
    ∃ stored, Reads (Decode.times record records.length) stored records ∧
      StandsAt image e.offset.toNat stored ∧ e.offset.toNat + stored.length = stop := by
  obtain ⟨hcount, hle, hstop, hread⟩ := h
  rw [hcount] at hread
  obtain ⟨stored, hstored, hr⟩ := hf.times _ hread
  rw [List.append_nil] at hstored
  refine ⟨stored, hr, fun i hi => ?_, ?_⟩
  · rw [← hstored, List.length_drop, List.length_take] at hi
    rw [← hstored, List.getElem?_drop, List.getElem?_take_of_lt (by omega)]
  · rw [← hstored, List.length_drop, List.length_take]
    omega

end Table

/-- An image is read as a header and tables if each of them is. -/
theorem readImage_eq_ok {name : String} {cs : Charset} {image : List UInt8} {h : Header}
    {t : Tables} : readImage name cs image = .ok (h, t) ↔
      (∃ rest, Header.decode image = .ok (h, rest)) ∧ t.package = name ∧
      readTable image h.names (nameEntry cs) = .ok t.names ∧
      readTable image h.imports importEntry = .ok t.imports ∧
      readTable image h.exports exportEntry = .ok t.exports := by
  simp only [readImage, except_bind_eq_ok, Prod.exists]
  constructor
  · rintro ⟨_, rest, hh, _, hn, _, hi, _, he, hp⟩
    cases hp
    exact ⟨⟨rest, hh⟩, rfl, hn, hi, he⟩
  · rintro ⟨⟨rest, hh⟩, rfl, hn, hi, he⟩
    exact ⟨h, rest, hh, _, hn, _, hi, _, he, rfl⟩

/-- A package is loaded if its image can be read, and keeps the image and the options. -/
theorem Package.load_eq_ok {name : String} {options : PackageOptions} {image : List UInt8}
    {p : Package} : Package.load name options image = .ok p ↔
      readImage name options.charset image = .ok (p.header, p.tables) ∧ p.image = image ∧
      p.options = options := by
  simp only [Package.load, except_bind_eq_ok, Prod.exists]
  constructor
  · rintro ⟨_, _, h, hp⟩
    cases hp
    exact ⟨h, rfl, rfl⟩
  · rintro ⟨h, rfl, rfl⟩
    exact ⟨_, _, h, rfl⟩

/-! ## The layout -/

namespace Package

/-- The header, a body, and the tables in a row up to the end, where the header says they are. -/
structure Laid (p : Package) (body nameBytes : List UInt8) : Prop where
  image : p.image = p.header.encode ++ (body ++ (nameBytes ++
    (Encode.importTable p.tables.imports ++ Encode.exportTable p.tables.exports)))
  size : p.image.length < 0x100000000
  generations : p.header.generations.length ≤ Header.generationLimit
  reads : Reads (Decode.times (nameEntry p.options.charset) p.tables.names.length) nameBytes
    p.tables.names
  names : p.header.names.Places p.tables.names.length (p.header.encodedLength + body.length)
  imports : p.header.imports.Places p.tables.imports.length
    (p.header.encodedLength + body.length + nameBytes.length)
  exports : p.header.exports.Places p.tables.exports.length (p.header.encodedLength +
    body.length + nameBytes.length + (Encode.importTable p.tables.imports).length)

/-- The tables lie back to back, the export table up to the end of the image. -/
structure TablesInRow (p : Package) : Prop where
  names : p.header.names.Spans p.image p.header.imports.offset.toNat
    (nameEntry p.options.charset) p.tables.names
  imports : p.header.imports.Spans p.image p.header.exports.offset.toNat importEntry
    p.tables.imports
  exports : p.header.exports.Spans p.image p.image.length exportEntry p.tables.exports

variable {p : Package} {body nameBytes : List UInt8}

namespace Laid

/-- The image with a table between what stands before it and behind it. -/
theorem image_names (h : p.Laid body nameBytes) : p.image =
    (p.header.encode ++ body) ++ (nameBytes ++
      (Encode.importTable p.tables.imports ++ Encode.exportTable p.tables.exports)) := by
  rw [h.image, List.append_assoc]

theorem image_imports (h : p.Laid body nameBytes) : p.image =
    (p.header.encode ++ body ++ nameBytes) ++
      (Encode.importTable p.tables.imports ++ Encode.exportTable p.tables.exports) := by
  rw [h.image_names, List.append_assoc (p.header.encode ++ body)]

theorem image_exports (h : p.Laid body nameBytes) : p.image =
    (p.header.encode ++ body ++ nameBytes ++ Encode.importTable p.tables.imports) ++
      (Encode.exportTable p.tables.exports ++ []) := by
  rw [h.image_imports, List.append_nil, List.append_assoc (p.header.encode ++ body ++ nameBytes)]

/-- A package with the tables at the end is as long as its parts. -/
theorem length_image (h : p.Laid body nameBytes) : p.image.length =
    p.header.encodedLength + body.length + nameBytes.length +
      (Encode.importTable p.tables.imports).length +
      (Encode.exportTable p.tables.exports).length := by
  rw [h.image, List.length_append, Header.length_encode]
  simp only [List.length_append, Nat.add_assoc]

/-- There are fewer entries in each table than an index can count. -/
theorem length_tables_lt (h : p.Laid body nameBytes) : p.tables.names.length < 0x80000000 ∧
    p.tables.imports.length < 0x80000000 ∧ p.tables.exports.length < 0x80000000 := by
  have hsize := h.size
  have hlength := h.length_image
  have hnames := Encode.four_mul_length_le_of_nameTable (h.reads [])
  have himports := Encode.four_mul_length_le_importTable p.tables.imports
  have hexports := Encode.four_mul_length_le_exportTable p.tables.exports
  simp only [List.append_nil, List.length_nil] at hnames
  omega

/-- The places of the tables are the lengths of what stands before them. -/
theorem places (h : p.Laid body nameBytes) :
    p.header.names.Places p.tables.names.length (p.header.encode ++ body).length ∧
    p.header.imports.Places p.tables.imports.length
      (p.header.encode ++ body ++ nameBytes).length ∧
    p.header.exports.Places p.tables.exports.length
      (p.header.encode ++ body ++ nameBytes ++ Encode.importTable p.tables.imports).length := by
  simp only [List.length_append, Header.length_encode]
  exact ⟨h.names, h.imports, h.exports⟩

theorem standsAt_body (h : p.Laid body nameBytes) :
    StandsAt p.image p.header.encodedLength body := by
  rw [h.image, ← Header.length_encode]
  exact standsAt_append _ _ _

/-- What is in memory is what the image says. -/
theorem readImage (h : p.Laid body nameBytes) :
    readImage p.tables.package p.options.charset p.image = .ok (p.header, p.tables) := by
  obtain ⟨hn, hi, he⟩ := h.places
  have hheader := Header.decode_eq_ok.2 ⟨h.generations, h.image⟩
  refine readImage_eq_ok.2 ⟨⟨_, hheader⟩, rfl, ?_, ?_, ?_⟩
  · rw [h.image_names]
    exact readTable_of_reads h.reads hn
  · rw [h.image_imports]
    exact readTable_of_reads (reads_importTable _) hi
  · rw [h.image_exports]
    exact readTable_of_reads (reads_exportTable _) he

/-- Opening the image again gives the package. -/
theorem load (h : p.Laid body nameBytes) :
    Package.load p.tables.package p.options p.image = .ok p :=
  load_eq_ok.2 ⟨h.readImage, rfl, rfl⟩

/-- The tables at the end lie in a row. -/
theorem tablesInRow (h : p.Laid body nameBytes) : p.TablesInRow := by
  obtain ⟨hn, hi, he⟩ := h.places
  constructor
  · have hs := spans_of_reads (Encode.importTable p.tables.imports ++
      Encode.exportTable p.tables.exports) h.reads hn
    rwa [← h.image_names, ← List.length_append, ← hi.2] at hs
  · have hs := spans_of_reads (Encode.exportTable p.tables.exports)
      (reads_importTable p.tables.imports) hi
    rwa [← h.image_imports, ← List.length_append, ← he.2] at hs
  · have hs := spans_of_reads [] (reads_exportTable p.tables.exports) he
    have hstop := congrArg List.length h.image_exports
    rw [List.append_nil, List.length_append] at hstop
    rwa [← h.image_exports, ← hstop] at hs

end Laid

end Package

end UnrealPackage
