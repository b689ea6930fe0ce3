import UnrealPackage.Proofs.Package.Exports
import UnrealPackage.Proofs.Package.TableEdit
/-!
# Shorter payloads in any layout

`Package.Spread p ends`: the header, the three tables, which end at `ends`, and the payloads of a
package lie in its image without sharing a byte, in whatever order. A payload that is not longer
than the old one is then written over it and the export table over the old one, which touches
nothing else, unless the image is cut behind the export table. `Package.Shortened` says this byte by
byte.

The image is cut where neither of the other tables begins behind the export table; whether a payload
does is not looked at. `setExportData_spread` says exactly which payloads survive.
-/

namespace UnrealPackage

open Decode ExportEntry

/-! ## Stretches of an image -/

/-- No byte lies in both stretches, each given by its first position and the first one behind it. -/
def RangesApart (r r' : Nat × Nat) : Prop :=
  ∀ i, r.1 ≤ i → i < r.2 → i < r'.1 ∨ r'.2 ≤ i

theorem RangesApart.symm {r r' : Nat × Nat} (h : RangesApart r r') : RangesApart r' r := by
  intro i hi hi'
  have := h i
  omega

theorem rangesApart_of_le {r r' : Nat × Nat} (h : r.2 ≤ r'.1 ∨ r'.2 ≤ r.1) :
    RangesApart r r' := by
  intro i hi hi'
  omega

/-- Of two stretches that hold a byte, one lies in front of the other. -/
theorem RangesApart.before_or_behind {r r' : Nat × Nat} (h : RangesApart r r') (hr : r.1 < r.2)
    (hr' : r'.1 < r'.2) : r.2 ≤ r'.1 ∨ r'.2 ≤ r.1 := by
  have := h r.1 (Nat.le_refl _) hr
  have := h.symm r'.1 (Nat.le_refl _) hr'
  omega

/-- A stretch that does not begin behind another one ends in front of it. -/
theorem RangesApart.lt_of_le {r r' : Nat × Nat} (h : RangesApart r r') (hle : r.1 ≤ r'.1)
    (hr' : r'.1 < r'.2) {i : Nat} (hi : i < r.2) : i < r'.1 := by
  have := h.symm r'.1 (Nat.le_refl _) hr'
  omega

/-- An export table, written again with a size of smaller magnitude, fits where it was read: its
numbers are written in no more bytes than they were read from. -/
theorem TableExtent.Spans.length_exportTable_le {extent : TableExtent} {image : List UInt8}
    {stop index : Nat} {exports : List ExportEntry} {e : ExportEntry}
    (h : extent.Spans image stop exportEntry exports) (he : exports[index]? = some e)
    {size : Int32} (hsize : size.toInt.natAbs ≤ e.size.toInt.natAbs) :
    extent.offset.toNat +
      (Encode.exportTable (exports.modify index fun e => { e with size })).length ≤ stop := by
  obtain ⟨stored, hr, -, hstop⟩ := h.exists_stored framed_exportEntry
  have hread := length_flatMap_le_of_times length_exportEntry_le (hr [])
  have hwritten := Encode.length_exportTable_modify (f := fun e => { e with size })
    exports index fun x hx => by
      cases he.symm.trans hx
      exact Encode.length_exportEntry_size hsize
  simp only [List.append_nil, List.length_nil] at hread
  rw [Encode.exportTable] at hwritten ⊢
  rw [Encode.exportTable] at hwritten
  omega

/-- Where the three tables end. -/
structure TableEnds where
  names : Nat
  imports : Nat
  exports : Nat

namespace Package

/-- The stretches that a package takes in its image: header, tables and payloads. -/
def occupied (p : Package) (ends : TableEnds) : List (Nat × Nat) :=
  (0, p.header.encodedLength) :: (p.header.names.offset.toNat, ends.names) ::
    (p.header.imports.offset.toNat, ends.imports) ::
    (p.header.exports.offset.toNat, ends.exports) :: p.dataRanges

/-- Header, tables and payloads lie in the image without sharing a byte, in whatever order. -/
structure Spread (p : Package) (ends : TableEnds) : Prop where
  names : p.header.names.Spans p.image ends.names (nameEntry p.options.charset) p.tables.names
  imports : p.header.imports.Spans p.image ends.imports importEntry p.tables.imports
  exports : p.header.exports.Spans p.image ends.exports exportEntry p.tables.exports
  inside : ∀ range ∈ p.dataRanges, range.2 ≤ p.image.length
  apart : (p.occupied ends).Pairwise RangesApart

variable {p p' : Package} {ends : TableEnds} {e e' : ExportEntry} {index : Nat}
  {data : List UInt8}

theorem mem_dataRanges (he : p.tables.exports[index]? = some e) (hpos : 0 < e.size.toInt) :
    (e.start, e.start + e.size.toInt.toNat) ∈ p.dataRanges :=
  List.mem_filterMap.2 ⟨e, List.mem_of_getElem? he, dataRange?_eq_some.2 ⟨hpos, rfl⟩⟩

namespace Spread

/-- The export table shares no byte with anything else. -/
theorem apart_exports (h : p.Spread ends) :
    RangesApart (0, p.header.encodedLength) (p.header.exports.offset.toNat, ends.exports) ∧
    RangesApart (p.header.names.offset.toNat, ends.names)
      (p.header.exports.offset.toNat, ends.exports) ∧
    RangesApart (p.header.imports.offset.toNat, ends.imports)
      (p.header.exports.offset.toNat, ends.exports) := by
  have hall := h.apart
  simp only [occupied, List.pairwise_cons, List.forall_mem_cons] at hall
  obtain ⟨⟨-, -, hheader, -⟩, ⟨-, hnames, -⟩, ⟨himports, -⟩, -⟩ := hall
  exact ⟨hheader, hnames, himports⟩

/-- A payload shares no byte with the header and the tables. -/
theorem apart_payload (h : p.Spread ends) {range : Nat × Nat} (hr : range ∈ p.dataRanges) :
    RangesApart (0, p.header.encodedLength) range ∧
    RangesApart (p.header.names.offset.toNat, ends.names) range ∧
    RangesApart (p.header.imports.offset.toNat, ends.imports) range ∧
    RangesApart (p.header.exports.offset.toNat, ends.exports) range := by
  have hall := h.apart
  simp only [occupied, List.pairwise_cons, List.forall_mem_cons] at hall
  obtain ⟨⟨-, -, -, hheader⟩, ⟨-, -, hnames⟩, ⟨-, himports⟩, hexports, -⟩ := hall
  exact ⟨hheader _ hr, hnames _ hr, himports _ hr, hexports _ hr⟩

/-- The payloads of two exports share no byte. -/
theorem apart_entries (h : p.Spread ends) {i j : Nat} (hij : i ≠ j)
    (he : p.tables.exports[i]? = some e) (he' : p.tables.exports[j]? = some e')
    (hpos : 0 < e.size.toInt) (hpos' : 0 < e'.size.toInt) :
    e.start + e.size.toInt.toNat ≤ e'.start ∨ e'.start + e'.size.toInt.toNat ≤ e.start := by
  have hall := h.apart
  simp only [occupied, List.pairwise_cons, dataRanges, List.pairwise_filterMap,
    dataRange?_eq_some] at hall
  obtain ⟨-, -, -, -, hall⟩ := hall
  rw [List.pairwise_iff_getElem] at hall
  obtain ⟨hi, rfl⟩ := List.getElem?_eq_some_iff.1 he
  obtain ⟨hj, rfl⟩ := List.getElem?_eq_some_iff.1 he'
  have hsize : 0 < p.tables.exports[i].size.toInt.toNat := by omega
  have hsize' : 0 < p.tables.exports[j].size.toInt.toNat := by omega
  rcases Nat.lt_or_gt_of_ne hij with hlt | hgt
  · have hapart := hall i j hi hj hlt _ ⟨hpos, rfl⟩ _ ⟨hpos', rfl⟩
    exact hapart.before_or_behind (Nat.lt_add_of_pos_right hsize) (Nat.lt_add_of_pos_right hsize')
  · have hapart := hall j i hj hi hgt _ ⟨hpos', rfl⟩ _ ⟨hpos, rfl⟩
    exact (hapart.before_or_behind (Nat.lt_add_of_pos_right hsize')
      (Nat.lt_add_of_pos_right hsize)).symm

/-- The payload of an export shares no byte with the export table. -/
theorem apart_payload_exports (h : p.Spread ends) (he : p.tables.exports[index]? = some e)
    (hpos : 0 < e.size.toInt) :
    RangesApart (e.start, e.start + e.size.toInt.toNat)
      (p.header.exports.offset.toNat, ends.exports) :=
  (h.apart_payload (mem_dataRanges he hpos)).2.2.2.symm

/-- The export table, written again with a size of smaller magnitude, fits where it was. -/
theorem length_exportTable_le (h : p.Spread ends) (he : p.tables.exports[index]? = some e)
    {size : Int32} (hsize : size.toInt.natAbs ≤ e.size.toInt.natAbs) :
    p.header.exports.offset.toNat +
      (Encode.exportTable (p.tables.exports.modify index fun e => { e with size })).length ≤
        ends.exports :=
  h.exports.length_exportTable_le he hsize

/-- An export table with an entry takes a byte. -/
theorem exports_lt (h : p.Spread ends) (he : p.tables.exports[index]? = some e) :
    p.header.exports.offset.toNat < ends.exports := by
  have hfits := h.length_exportTable_le he (Nat.le_refl e.size.toInt.natAbs)
  have hcount := Encode.four_mul_length_le_exportTable
    (p.tables.exports.modify index fun x => { x with size := e.size })
  have hindex := (List.getElem?_eq_some_iff.1 he).1
  rw [List.length_modify] at hcount
  omega

end Spread

/-! ## What is written -/

/-- Storing a payload of this length for the entry writes the export table again and cuts the image
behind it. -/
def CutsBehindExports (p : Package) (e : ExportEntry) (data : List UInt8) : Prop :=
  Int32.ofNat data.length ≠ e.size ∧ p.ExportsLast

/-- The tables with the size of an export set to the length of its payload. -/
def withSize (p : Package) (index : Nat) (data : List UInt8) : Tables :=
  { p.tables with
    exports := p.tables.exports.modify index fun e =>
      { e with size := Int32.ofNat data.length } }

theorem getElem?_withSize_self (he : p.tables.exports[index]? = some e) :
    (p.withSize index data).exports[index]? = some { e with size := Int32.ofNat data.length } := by
  rw [withSize, List.getElem?_modify_eq, he]
  rfl

theorem getElem?_withSize_ne {j : Nat} (hj : j ≠ index) :
    (p.withSize index data).exports[j]? = p.tables.exports[j]? :=
  List.getElem?_modify_ne _ _ hj.symm

/-- What `p` has become where `data` was written over the payload of `e`, byte by byte. -/
structure Shortened (p p' : Package) (ends : TableEnds) (index : Nat) (e : ExportEntry)
    (data : List UInt8) : Prop where
  header : p'.header = p.header
  options : p'.options = p.options
  tables : p'.tables = p.withSize index data
  stands : (p.CutsBehindExports e data → e.start < p.header.exports.offset.toNat) →
    StandsAt p'.image e.start data
  bytes : ∀ i, i < e.start ∨ e.start + data.length ≤ i →
    i < p.header.exports.offset.toNat ∨ ends.exports ≤ i →
    (p.CutsBehindExports e data → i < p.header.exports.offset.toNat) →
    p'.image[i]? = p.image[i]?
  cut : p.CutsBehindExports e data → p'.image.length ≤ ends.exports

/-- Writing over a payload changes only its bytes. -/
theorem getElem?_overwritten {i : Nat} (hstop : data ≠ [] → e.start + data.length ≤ p.image.length)
    (hi : i < e.start ∨ e.start + data.length ≤ i) :
    (p.overwritten e data).image[i]? = p.image[i]? := by
  rw [overwritten]
  split
  · rfl
  · next hdata =>
    have hstop := hstop fun hnil => hdata (List.isEmpty_iff.2 hnil)
    simp only [getElem?_writeAt]
    split
    · rw [List.getElem?_eq_getElem (by omega)]
      rfl
    · rw [if_neg (by omega)]

/-- New data stands where the old payload began. -/
theorem standsAt_overwritten (p : Package) (e : ExportEntry) (data : List UInt8) :
    StandsAt (p.overwritten e data).image e.start data := by
  rw [overwritten]
  split
  · next hdata =>
    rw [List.isEmpty_iff.1 hdata]
    exact standsAt_nil _ _
  · intro i hi
    simp only [getElem?_writeAt]
    rw [if_neg (by omega), if_pos (by omega), Nat.add_sub_cancel_left]

/-- Data that ends in the image leaves it as long as it was. -/
theorem length_overwritten (hstop : data ≠ [] → e.start + data.length ≤ p.image.length) :
    (p.overwritten e data).image.length = p.image.length := by
  rw [overwritten]
  split
  · rfl
  · next hdata =>
    have hstop := hstop fun hnil => hdata (List.isEmpty_iff.2 hnil)
    simp only [length_writeAt]
    omega

theorem overwritten_header : (p.overwritten e data).header = p.header := by
  rw [overwritten]
  split <;> rfl

theorem overwritten_tables : (p.overwritten e data).tables = p.tables := by
  rw [overwritten]
  split <;> rfl

theorem overwritten_options : (p.overwritten e data).options = p.options := by
  rw [overwritten]
  split <;> rfl

/-- The export table is written again in its place. -/
theorem standsAt_storeExports (p : Package) (exports : List ExportEntry) :
    StandsAt (Change.storeExports exports p).2.image p.header.exports.offset.toNat
      (Encode.exportTable exports) := by
  rw [image_storeExports]
  intro i hi
  split
  · rw [List.getElem?_append_right (by rw [length_resize]; omega), length_resize,
      Nat.add_sub_cancel_left]
  · rw [getElem?_writeAt, if_neg (by omega), if_pos (by omega), Nat.add_sub_cancel_left]

/-- Writing an export table that fits in front of `stop` changes nothing else but what it cuts. -/
theorem getElem?_storeExports {exports : List ExportEntry} (stop : Nat) {i : Nat}
    (hfits : p.header.exports.offset.toNat + (Encode.exportTable exports).length ≤ stop)
    (hstop : stop ≤ p.image.length) (hi : i < p.header.exports.offset.toNat ∨ stop ≤ i)
    (hcut : p.ExportsLast → i < p.header.exports.offset.toNat) :
    (Change.storeExports exports p).2.image[i]? = p.image[i]? := by
  rw [image_storeExports]
  split
  · next hlast =>
    have hlt := hcut hlast
    rw [List.getElem?_append_left (by rwa [length_resize]), getElem?_resize, if_pos hlt,
      List.getElem?_eq_getElem (by omega)]
    rfl
  · rw [getElem?_writeAt]
    split
    · rw [List.getElem?_eq_getElem (by omega)]
      rfl
    · rw [if_neg (by omega)]

/-! ## What is read back -/

/-- An image that differs from the old one in the export table only is read so. -/
theorem Spread.readImage (h : p.Spread ends)
    (hread : readImage p.tables.package p.options.charset p.image = .ok (p.header, p.tables))
    {image : List UInt8} {exports : List ExportEntry}
    (hcount : exports.length = p.tables.exports.length)
    (hheader : ∀ i < p.header.encodedLength, image[i]? = p.image[i]?)
    (hnames : ∀ i, p.header.names.offset.toNat ≤ i → i < ends.names → image[i]? = p.image[i]?)
    (himports : ∀ i, p.header.imports.offset.toNat ≤ i → i < ends.imports →
      image[i]? = p.image[i]?)
    (hexports : StandsAt image p.header.exports.offset.toNat (Encode.exportTable exports)) :
    UnrealPackage.readImage p.tables.package p.options.charset image =
      .ok (p.header, { p.tables with exports }) := by
  obtain ⟨⟨tail, hdecode⟩, -⟩ := readImage_eq_ok.1 hread
  obtain ⟨hg, himage⟩ := Header.decode_eq_ok.1 hdecode
  refine readImage_eq_ok.2 ⟨?_, rfl, ?_, ?_, ?_⟩
  · have hstands : StandsAt p.image 0 p.header.encode := by
      rw [himage]
      exact standsAt_append [] _ _
    have hstands' : StandsAt image 0 p.header.encode := by
      refine hstands.congr fun i _ hi => hheader i ?_
      rwa [Header.length_encode, Nat.zero_add] at hi
    obtain ⟨rest, hrest⟩ := standsAt_iff.1 hstands'
    exact ⟨rest, Header.decode_eq_ok.2 ⟨hg, (bytes_eq_ok.1 hrest).1⟩⟩
  · obtain ⟨stored, hr, hs, hstop⟩ := h.names.exists_stored (framed_nameEntry _)
    exact readTable_of_standsAt hr h.names.1
      (hs.congr fun i hi hi' => hnames i hi (by omega))
  · obtain ⟨stored, hr, hs, hstop⟩ := h.imports.exists_stored framed_importEntry
    exact readTable_of_standsAt hr h.imports.1
      (hs.congr fun i hi hi' => himports i hi (by omega))
  · exact readTable_of_standsAt (reads_exportTable exports) (h.exports.1.trans hcount.symm) hexports

/-! ## Replacing a payload -/

section Replace

variable {range : Nat × Nat}

/-- What shares no byte with a payload is not reached by a shorter one. -/
theorem away_of_apart (hshort : data.length ≤ e.size.toInt.toNat)
    (hapart : data ≠ [] → RangesApart range (e.start, e.start + e.size.toInt.toNat)) {i : Nat}
    (hi : range.1 ≤ i) (hi' : i < range.2) : i < e.start ∨ e.start + data.length ≤ i := by
  rcases Nat.eq_zero_or_pos data.length with hzero | hlength
  · omega
  · have := hapart (List.length_pos_iff.1 hlength) i hi hi'
    dsimp only at this
    omega

/-- Only a payload of some bytes is not shorter than some bytes. -/
theorem size_pos_of_ne (hshort : data.length ≤ e.size.toInt.toNat) (hne : data ≠ []) :
    0 < e.size.toInt := by
  have hlength := List.length_pos_iff.2 hne
  omega

/-- Data that is no longer than the payload it takes the place of ends in the image. -/
theorem Spread.stop_le (h : p.Spread ends) (he : p.tables.exports[index]? = some e)
    (hshort : data.length ≤ e.size.toInt.toNat) (hne : data ≠ []) :
    e.start + data.length ≤ p.image.length := by
  have hinside := h.inside _ (mem_dataRanges he (size_pos_of_ne hshort hne))
  dsimp only at hinside
  omega

theorem exportsLast_overwritten : (p.overwritten e data).ExportsLast ↔ p.ExportsLast := by
  rw [ExportsLast, overwritten_header, ExportsLast]

/-- A payload of the same length is written over the old one. -/
theorem Spread.overwritten_shortened (h : p.Spread ends)
    (he : p.tables.exports[index]? = some e) (hshort : data.length ≤ e.size.toInt.toNat)
    (hsame : Int32.ofNat data.length = e.size) :
    p.Shortened (p.overwritten e data) ends index e data := by
  refine ⟨overwritten_header, overwritten_options, ?_, fun _ => standsAt_overwritten p e data,
    fun i hi _ _ => getElem?_overwritten (h.stop_le he hshort) hi, fun hcut => absurd hsame hcut.1⟩
  have hself : ({ e with size := Int32.ofNat data.length } : ExportEntry) = e := by
    rw [hsame]
  rw [overwritten_tables, withSize, modify_eq_self he hself]

/-- The image with a shorter payload over the old one and the export table over the old one. -/
def shortenedImage (p : Package) (index : Nat) (e : ExportEntry) (data : List UInt8) :
    List UInt8 :=
  (Change.storeExports (p.withSize index data).exports (p.overwritten e data)).2.image

theorem toInt_ofNat_length (hshort : data.length ≤ e.size.toInt.toNat) :
    (Int32.ofNat data.length).toInt = data.length := by
  have := e.size.toInt_lt
  exact Int32.toInt_ofNat_of_lt (by omega)

/-- The export table with the shorter size fits where it was. -/
theorem Spread.length_withSize_le (h : p.Spread ends) (he : p.tables.exports[index]? = some e)
    (hshort : data.length ≤ e.size.toInt.toNat) :
    p.header.exports.offset.toNat + (Encode.exportTable (p.withSize index data).exports).length ≤
      ends.exports := by
  have hdata := toInt_ofNat_length hshort
  exact h.length_exportTable_le he (by omega)

/-- Nothing but the payload and the export table is changed, unless it is cut. -/
theorem Spread.getElem?_shortenedImage (h : p.Spread ends)
    (he : p.tables.exports[index]? = some e) (hshort : data.length ≤ e.size.toInt.toNat) {i : Nat}
    (hi : i < e.start ∨ e.start + data.length ≤ i)
    (hi' : i < p.header.exports.offset.toNat ∨ ends.exports ≤ i)
    (hcut : p.ExportsLast → i < p.header.exports.offset.toNat) :
    (p.shortenedImage index e data)[i]? = p.image[i]? := by
  have hstop := h.stop_le he hshort
  rw [shortenedImage, ← getElem?_overwritten hstop hi]
  refine getElem?_storeExports ends.exports ?_ ?_ ?_ ?_
  · rw [overwritten_header]
    exact h.length_withSize_le he hshort
  · rw [length_overwritten hstop]
    exact h.exports.2.2.1
  · rwa [overwritten_header]
  · rwa [overwritten_header, exportsLast_overwritten]

/-- The payload is there, unless it is cut. -/
theorem Spread.standsAt_shortenedImage (h : p.Spread ends)
    (he : p.tables.exports[index]? = some e) (hshort : data.length ≤ e.size.toInt.toNat)
    (hcut : p.ExportsLast → e.start < p.header.exports.offset.toNat) :
    StandsAt (p.shortenedImage index e data) e.start data := by
  have hstop := h.stop_le he hshort
  refine (standsAt_overwritten p e data).congr fun i hi hi' => ?_
  have hne : data ≠ [] := by
    rintro rfl
    exact absurd hi' (Nat.not_lt.2 hi)
  have hapart := h.apart_payload_exports he (size_pos_of_ne hshort hne)
  refine getElem?_storeExports ends.exports ?_ ?_ ?_ ?_
  · rw [overwritten_header]
    exact h.length_withSize_le he hshort
  · rw [length_overwritten hstop]
    exact h.exports.2.2.1
  · rw [overwritten_header]
    exact hapart i hi (by dsimp only; omega)
  · rw [overwritten_header, exportsLast_overwritten]
    intro hlast
    exact hapart.lt_of_le (Nat.le_of_lt (hcut hlast)) (h.exports_lt he) (by dsimp only; omega)

/-- Header and tables are read from the image as they were, but for the size of the payload. -/
theorem Spread.readImage_shortenedImage (h : p.Spread ends)
    (hread : UnrealPackage.readImage p.tables.package p.options.charset p.image =
      .ok (p.header, p.tables))
    (he : p.tables.exports[index]? = some e) (hshort : data.length ≤ e.size.toInt.toNat) :
    UnrealPackage.readImage p.tables.package p.options.charset (p.shortenedImage index e data) =
      .ok (p.header, p.withSize index data) := by
  have hlt := h.exports_lt he
  -- what is apart from the payload and the export table, and not behind it if it is the last one
  have hkept : ∀ {range : Nat × Nat},
      (data ≠ [] → RangesApart range (e.start, e.start + e.size.toInt.toNat)) →
      RangesApart range (p.header.exports.offset.toNat, ends.exports) →
      (p.ExportsLast → range.1 ≤ p.header.exports.offset.toNat) →
      ∀ i, range.1 ≤ i → i < range.2 → (p.shortenedImage index e data)[i]? = p.image[i]? :=
    fun haway hapart hlast i hi hi' =>
      h.getElem?_shortenedImage he hshort (away_of_apart hshort haway hi hi') (hapart i hi hi')
        fun hcut => hapart.lt_of_le (hlast hcut) hlt hi'
  have hpayload := fun hne : data ≠ [] =>
    h.apart_payload (mem_dataRanges he (size_pos_of_ne hshort hne))
  obtain ⟨hheader, hnames, himports⟩ := h.apart_exports
  refine h.readImage hread (List.length_modify _ _ _) ?_ ?_ ?_ ?_
  · exact fun i => hkept (fun hne => (hpayload hne).1) hheader (fun _ => Nat.zero_le _) i
      (Nat.zero_le _)
  · exact hkept (fun hne => (hpayload hne).2.1) hnames fun hlast =>
      UInt32.le_iff_toNat_le.1 hlast.1
  · exact hkept (fun hne => (hpayload hne).2.2.1) himports fun hlast =>
      UInt32.le_iff_toNat_le.1 hlast.2
  · have htable := standsAt_storeExports (p.overwritten e data) (p.withSize index data).exports
    rwa [overwritten_header] at htable

/-- A shorter payload is written over the old one, and the export table over the old one. -/
theorem Spread.storeExports_shortened (h : p.Spread ends)
    (hread : UnrealPackage.readImage p.tables.package p.options.charset p.image =
      .ok (p.header, p.tables))
    (he : p.tables.exports[index]? = some e) (hshort : data.length ≤ e.size.toInt.toNat)
    (hsize : Int32.ofNat data.length ≠ e.size) :
    ∃ p', Change.storeExports (p.withSize index data).exports (p.overwritten e data) =
      (.ok (), p') ∧ p.Shortened p' ends index e data := by
  have hread' := h.readImage_shortenedImage hread he hshort
  rw [storeExports_eq]
  refine ⟨_, Change.reload_eq (h := p.header) (t := p.withSize index data) ?_, ?_⟩
  · dsimp only
    rwa [overwritten_tables, overwritten_options]
  · refine ⟨rfl, overwritten_options, rfl, fun hcut => ?_, fun i hi hi' hcut => ?_, fun hcut => ?_⟩
    · exact h.standsAt_shortenedImage he hshort fun hlast => hcut ⟨hsize, hlast⟩
    · exact h.getElem?_shortenedImage he hshort hi hi' fun hlast => hcut ⟨hsize, hlast⟩
    · show (Change.storeExports _ _).2.image.length ≤ _
      rw [image_storeExports, if_pos (exportsLast_overwritten.2 hcut.2), overwritten_header,
        List.length_append, length_resize]
      exact h.length_withSize_le he hshort

/-- A payload that is not longer than the old one is written over it. -/
theorem Spread.setExportData (h : p.Spread ends)
    (hread : UnrealPackage.readImage p.tables.package p.options.charset p.image =
      .ok (p.header, p.tables))
    (hw : p.options.writable = true) (he : p.tables.exports[index]? = some e)
    (hshort : data.length ≤ e.size.toInt.toNat) :
    ∃ p', Change.setExportData index data p = (.ok (), p') ∧ p.Shortened p' ends index e data := by
  rw [setExportData_eq data hw he, if_neg (by omega), overwritten_tables]
  by_cases hsize : Int32.ofNat data.length = e.size
  · rw [if_neg (Decidable.not_not.2 hsize)]
    exact ⟨_, rfl, h.overwritten_shortened he hshort hsize⟩
  · rw [if_pos hsize]
    exact h.storeExports_shortened hread he hshort hsize

end Replace

/-! ## Which payloads survive -/

namespace Shortened

/-- Bytes that are kept unless they are cut are there exactly if they are not cut. -/
theorem standsAt_iff (hs : p.Shortened p' ends index e data) {position : Nat} {d : List UInt8}
    (hne : d ≠ []) (hlt : p.header.exports.offset.toNat < ends.exports)
    (hapart : RangesApart (position, position + d.length)
      (p.header.exports.offset.toNat, ends.exports))
    (hkept : (p.CutsBehindExports e data → position < p.header.exports.offset.toNat) →
      StandsAt p'.image position d) :
    StandsAt p'.image position d ↔
      (p.CutsBehindExports e data → position < p.header.exports.offset.toNat) := by
  refine ⟨fun hstands hcut => ?_, hkept⟩
  have hlength := List.length_pos_iff.2 hne
  rcases hapart.before_or_behind (Nat.lt_add_of_pos_right hlength) hlt with hbefore | hbehind
  · dsimp only at hbefore
    omega
  · -- the first byte would lie behind the end of the image
    have hfirst := hstands 0 hlength
    have hend := hs.cut hcut
    dsimp only at hbehind
    rw [List.getElem?_eq_none (by omega), List.getElem?_eq_getElem hlength] at hfirst
    cases hfirst

/-- The new payload is there unless it lies where the image is cut. -/
theorem exportData_self (hs : p.Shortened p' ends index e data) (h : p.Spread ends)
    (he : p.tables.exports[index]? = some e) (hshort : data.length ≤ e.size.toInt.toNat) :
    p'.exportData index = .ok data ↔ (p.CutsBehindExports e data → data ≠ [] →
      e.start < p.header.exports.offset.toNat) := by
  have he' : p'.tables.exports[index]? = some { e with size := Int32.ofNat data.length } := by
    rw [hs.tables, getElem?_withSize_self he]
  have hdata := toInt_ofNat_length hshort
  rw [exportData_eq_payload he', payload_eq_ok, hdata, Int.toNat_natCast, and_iff_right rfl]
  by_cases hne : data = []
  · subst hne
    exact iff_of_true (standsAt_nil _ _) fun _ h => absurd rfl h
  · have hpayload := h.apart_payload_exports he (size_pos_of_ne hshort hne)
    have hstands := hs.standsAt_iff hne (h.exports_lt he)
      (fun i hi hi' => hpayload i hi (by dsimp only at hi' ⊢; omega)) hs.stands
    exact hstands.trans ⟨fun h hcut _ => h hcut, fun h hcut => h hcut hne⟩

/-- The payload of another export that is not cut stands where it stood. -/
theorem standsAt_other (hs : p.Shortened p' ends index e data) (h : p.Spread ends)
    (he : p.tables.exports[index]? = some e) (hshort : data.length ≤ e.size.toInt.toNat) {j : Nat}
    (hj : j ≠ index) (he' : p.tables.exports[j]? = some e') (hpos : 0 < e'.size.toInt)
    {old : List UInt8} (hlength : old.length = e'.size.toInt.toNat)
    (hstands : StandsAt p.image e'.start old)
    (hcut : p.CutsBehindExports e data → e'.start < p.header.exports.offset.toNat) :
    StandsAt p'.image e'.start old := by
  refine hstands.congr fun i hi hi' => ?_
  have hexports := h.apart_payload_exports he' hpos
  rw [hlength] at hi'
  refine hs.bytes i ?_ (hexports i hi hi') fun hc => ?_
  · rcases Nat.eq_zero_or_pos data.length with hzero | hdata
    · omega
    · have := h.apart_entries hj he' he hpos (by omega)
      omega
  · exact hexports.lt_of_le (Nat.le_of_lt (hcut hc)) (h.exports_lt he) hi'

/-- The payload of another export is there unless it lies where the image is cut. -/
theorem exportData_other (hs : p.Shortened p' ends index e data) (h : p.Spread ends)
    (he : p.tables.exports[index]? = some e) (hshort : data.length ≤ e.size.toInt.toNat) {j : Nat}
    (hj : j ≠ index) (he' : p.tables.exports[j]? = some e') :
    p'.exportData j = p.exportData j ↔ (p.CutsBehindExports e data → 0 < e'.size.toInt →
      e'.start < p.header.exports.offset.toNat) := by
  have hnew : p'.tables.exports[j]? = some e' := by
    rw [hs.tables, getElem?_withSize_ne hj, he']
  rw [exportData_eq_payload hnew, exportData_eq_payload he']
  by_cases hpos : 0 < e'.size.toInt
  · have hpayload := h.apart_payload_exports he' hpos
    have hinside := h.inside _ (mem_dataRanges he' hpos)
    have hold := payload_of_dataRange (dataRange?_eq_some.2 ⟨hpos, rfl⟩) hinside
    obtain ⟨hlength, hstands⟩ := payload_eq_ok.1 hold
    rw [hold, payload_eq_ok, and_iff_right hlength]
    generalize (p.image.drop e'.start).take _ = old at hlength hstands
    have hne : old ≠ [] := List.ne_nil_of_length_pos (by omega)
    have hiff := hs.standsAt_iff hne (h.exports_lt he) (hlength ▸ hpayload)
      (hs.standsAt_other h he hshort hj he' hpos hlength hstands)
    exact hiff.trans ⟨fun h hcut _ => h hcut, fun h hcut => h hcut hpos⟩
  · have hempty : ∀ q : Package, q.payload e' = .ok [] := fun q =>
      payload_eq_ok.2 ⟨by rw [List.length_nil]; omega, standsAt_nil _ _⟩
    rw [hempty, hempty]
    exact iff_of_true rfl fun _ h => absurd h hpos

/-- Every payload is what it should be unless it lies where the image is cut. -/
theorem exportData_iff (hs : p.Shortened p' ends index e data) (h : p.Spread ends)
    (he : p.tables.exports[index]? = some e) (hshort : data.length ≤ e.size.toInt.toNat)
    (j : Nat) :
    p'.exportData j = (if j = index then .ok data else p.exportData j) ↔
      (p.CutsBehindExports e data → ∀ e', p'.tables.exports[j]? = some e' →
        0 < e'.size.toInt → e'.start < p.header.exports.offset.toNat) := by
  rw [hs.tables]
  by_cases hj : j = index
  · subst hj
    have hdata := toInt_ofNat_length hshort
    rw [if_pos rfl, hs.exportData_self h he hshort, getElem?_withSize_self he]
    refine imp_congr_right fun _ => ⟨?_, fun h hne => ?_⟩
    · rintro h _ ⟨⟩ hpos
      dsimp only at hpos
      rw [hdata] at hpos
      exact h (List.ne_nil_of_length_pos (by omega))
    · have hlength := List.length_pos_iff.2 hne
      exact h { e with size := Int32.ofNat data.length } rfl (by dsimp only; omega)
  · rw [if_neg hj, getElem?_withSize_ne hj]
    cases he' : p.tables.exports[j]? with
    | none =>
      have hnew : p'.tables.exports[j]? = none := by
        rw [hs.tables, getElem?_withSize_ne hj, he']
      rw [exportData_of_none he', exportData_of_none hnew, hs.tables, withSize, List.length_modify]
      exact iff_of_true rfl fun _ _ hsome => nomatch hsome
    | some e' =>
      rw [hs.exportData_other h he hshort hj he']
      refine imp_congr_right fun _ => ⟨?_, fun h => h e' rfl⟩
      rintro h _ ⟨⟩
      exact h

end Shortened

end Package

/-- A payload that is not longer than the old one is stored in every layout, and header and tables
stay as they are but for its size. Each payload, the new one among them, is then what it should be
exactly if it does not lie behind the export table where the image is cut there. -/
theorem setExportData_spread {name : String} {options : PackageOptions} {image data : List UInt8}
    {p : Package} {ends : TableEnds} {index : Nat} {e : ExportEntry}
    (hload : Package.load name options image = .ok p) (hw : options.writable = true)
    (hspread : p.Spread ends) (he : p.tables.exports[index]? = some e)
    (hshort : data.length ≤ e.size.toInt.toNat) :
    ∃ p', Change.setExportData index data p = (.ok (), p') ∧ p'.header = p.header ∧
      p'.options = p.options ∧ p'.tables = p.withSize index data ∧
      ∀ j, p'.exportData j = (if j = index then .ok data else p.exportData j) ↔
        (p.CutsBehindExports e data → ∀ e', p'.tables.exports[j]? = some e' →
          0 < e'.size.toInt → e'.start < p.header.exports.offset.toNat) := by
  obtain ⟨hread, -, rfl⟩ := Package.load_eq_ok.1 hload
  have hpackage := (readImage_eq_ok.1 hread).2.1
  have himage := (Package.load_eq_ok.1 hload).2.1
  subst hpackage himage
  obtain ⟨p', hrun, hs⟩ := hspread.setExportData hread hw he hshort
  exact ⟨p', hrun, hs.header, hs.options, hs.tables, hs.exportData_iff hspread he hshort⟩

/-- A package whose export table comes first and whose names come last. -/
def Package.namesLast : Package where
  image :=
    [0xC1, 0x83, 0x2A, 0x9E, 68, 0, 0, 0, 1, 0, 0, 0, 1, 0, 0, 0, 87, 0, 0, 0, 2, 0, 0, 0, 56, 0,
      0, 0, 0, 0, 0, 0, 97, 0, 0, 0, 0, 0, 0, 0, 0, 0, 0, 0, 0, 0, 0, 0, 0, 0, 0, 0, 0, 0, 0, 0, 0,
      0, 0, 0, 0, 0, 0, 0, 0, 0, 0, 2, 84, 1, 0, 0, 0, 0, 0, 0, 0, 0, 0, 0, 0, 1, 86, 1, 1, 2, 7, 5,
      78, 111, 110, 101, 0, 0, 0, 0, 0]
  header := ⟨68, 0, 1, ⟨1, 87⟩, ⟨2, 56⟩, ⟨0, 97⟩, ⟨0, 0, 0, 0⟩, []⟩
  tables := ⟨"P", [⟨"None", 0⟩], [],
    [⟨.none, .none, .none, 0, 0, 2, 84⟩, ⟨.none, .none, .none, 0, 0, 1, 86⟩]⟩
  options := { writable := true }

/-- A payload gets shorter in a package whose names come last. -/
theorem setExportData_spread_namesLast :
    ∃ p', Change.setExportData 0 [9] Package.namesLast = (.ok (), p') ∧
      p'.exportData 0 = .ok [9] ∧ p'.exportData 1 = .ok [7] := by
  have hload : Package.load "P" Package.namesLast.options Package.namesLast.image =
      .ok Package.namesLast := by rfl
  have hle : (Package.namesLast.occupied ⟨97, 97, 84⟩).Pairwise
      fun r r' => r.2 ≤ r'.1 ∨ r'.2 ≤ r.1 := by decide
  have hspread : Package.namesLast.Spread ⟨97, 97, 84⟩ :=
    ⟨⟨rfl, by decide, by decide, rfl⟩, ⟨rfl, by decide, by decide, rfl⟩,
      ⟨rfl, by decide, by decide, rfl⟩, by decide, hle.imp rangesApart_of_le⟩
  have he : Package.namesLast.tables.exports[0]? = some ⟨.none, .none, .none, 0, 0, 2, 84⟩ := rfl
  have hshort : [(9 : UInt8)].length ≤ (2 : Int32).toInt.toNat := by decide
  have hkept : ¬Package.namesLast.CutsBehindExports ⟨.none, .none, .none, 0, 0, 2, 84⟩ [9] :=
    fun hcut => absurd hcut.2 (by decide)
  obtain ⟨p', hrun, -, -, -, hdata⟩ := setExportData_spread hload rfl hspread he hshort
  exact ⟨p', hrun, (hdata 0).2 fun h => absurd h hkept, (hdata 1).2 fun h => absurd h hkept⟩

/-- A package whose payloads come last, behind the export table. -/
def Package.payloadsLast : Package where
  image :=
    [0xC1, 0x83, 0x2A, 0x9E, 68, 0, 0, 0, 1, 0, 0, 0, 1, 0, 0, 0, 56, 0, 0, 0, 2, 0, 0, 0, 66, 0, 0,
      0, 0, 0, 0, 0, 66, 0, 0, 0, 0, 0, 0, 0, 0, 0, 0, 0, 0, 0, 0, 0, 0, 0, 0, 0, 0, 0, 0, 0, 5, 78,
      111, 110, 101, 0, 0, 0, 0, 0, 0, 0, 0, 0, 0, 0, 0, 0, 0, 0, 0, 2, 94, 1, 0, 0, 0, 0, 0, 0, 0,
      0, 0, 0, 0, 1, 96, 1, 1, 2, 7]
  header := ⟨68, 0, 1, ⟨1, 56⟩, ⟨2, 66⟩, ⟨0, 66⟩, ⟨0, 0, 0, 0⟩, []⟩
  tables := ⟨"P", [⟨"None", 0⟩], [],
    [⟨.none, .none, .none, 0, 0, 2, 94⟩, ⟨.none, .none, .none, 0, 0, 1, 96⟩]⟩
  options := { writable := true }

set_option maxRecDepth 2000 in
/-- There all payloads are lost when one gets shorter. -/
theorem setExportData_spread_payloadsLast :
    Package.load "P" Package.payloadsLast.options Package.payloadsLast.image =
      .ok Package.payloadsLast ∧
    Package.payloadsLast.Spread ⟨66, 66, 94⟩ ∧ Package.payloadsLast.exportData 1 = .ok [7] ∧
    ∃ p', Change.setExportData 0 [9] Package.payloadsLast = (.ok (), p') ∧
      p'.exportData 0 = .error .truncated ∧ p'.exportData 1 = .error .truncated := by
  have hle : (Package.payloadsLast.occupied ⟨66, 66, 94⟩).Pairwise
      fun r r' => r.2 ≤ r'.1 ∨ r'.2 ≤ r.1 := by decide
  refine ⟨rfl, ⟨⟨rfl, by decide, by decide, rfl⟩, ⟨rfl, by decide, by decide, rfl⟩,
    ⟨rfl, by decide, by decide, rfl⟩, by decide, hle.imp rangesApart_of_le⟩, rfl,
    { Package.payloadsLast with
      image := writeAt (resize Package.payloadsLast.image 94) 77 [1]
      tables := Package.payloadsLast.withSize 0 [9] }, rfl, rfl, rfl⟩

end UnrealPackage
