import UnrealPackage.Proofs.Package.Spread
/-!
# Shorter payloads leave the rest alone

`setExportData_inPlace`: a payload that is not longer than the old one is written over it, and the
export table, which is then written again, ends no later than the table that was read. So nothing
but these two stretches of the image changes if another table begins behind the export table.

Nothing is asked of the layout: the stretches may share bytes with each other, with the header and
with the other tables, and the numbers of the table that was read may be stored in more bytes than
they take when they are written.
-/

namespace UnrealPackage

open Decode

/-- A table that was read spans a stretch of the image, unless it begins behind it. -/
theorem exists_spans_of_readTable {α : Type} {extent : TableExtent} {image : List UInt8}
    {record : Decode α} {records : List α} (hf : Framed record)
    (hle : extent.offset.toNat ≤ image.length) (h : readTable image extent record = .ok records) :
    ∃ stop, extent.Spans image stop record records := by
  obtain ⟨rest, hread⟩ := readTable_eq_ok.1 h
  have hcount := length_of_times hread
  obtain ⟨stored, hstored, hr⟩ := hf.times _ hread
  have himage : image = image.take extent.offset.toNat ++ (stored ++ rest) := by
    rw [← hstored, List.take_append_drop]
  have hlength : (image.take extent.offset.toNat).length = extent.offset.toNat := by
    rw [List.length_take]
    omega
  rw [← hcount] at hr
  rw [himage]
  exact ⟨_, spans_of_reads rest hr ⟨hcount.symm, hlength.symm⟩⟩

namespace Package

variable {p p' : Package} {e : ExportEntry} {index stop : Nat} {data : List UInt8}

/-- The export table of a package with an export spans a stretch of its image. -/
theorem exists_spans_exports
    (h : readTable p.image p.header.exports exportEntry = .ok p.tables.exports)
    (he : p.tables.exports[index]? = some e) :
    ∃ stop, p.header.exports.Spans p.image stop exportEntry p.tables.exports := by
  refine exists_spans_of_readTable framed_exportEntry ?_ h
  obtain ⟨rest, hread⟩ := readTable_eq_ok.1 h
  have hlength := length_flatMap_le_of_times length_exportEntry_le hread
  have hcount := Encode.four_mul_length_le_exportTable p.tables.exports
  have hindex := (List.getElem?_eq_some_iff.1 he).1
  rw [List.length_drop] at hlength
  rw [Encode.exportTable] at hcount
  omega

theorem natAbs_length_le (hshort : (data.length : Int) ≤ max e.size.toInt 0) :
    (Int32.ofNat data.length).toInt.natAbs ≤ e.size.toInt.natAbs := by
  have hdata : (Int32.ofNat data.length).toInt = data.length :=
    toInt_ofNat_length (e := e) (by omega)
  omega

/-- Where another table begins behind the export table, writing a smaller one over it changes only
its bytes. -/
theorem storeExports_inPlace {exports : List ExportEntry} (hlast : ¬p.ExportsLast)
    (hfits : p.header.exports.offset.toNat + (Encode.exportTable exports).length ≤ stop)
    (hstop : stop ≤ p.image.length) :
    (Change.storeExports exports p).2.image.length = p.image.length ∧
      ∀ i, i < p.header.exports.offset.toNat ∨ stop ≤ i →
        (Change.storeExports exports p).2.image[i]? = p.image[i]? := by
  refine ⟨?_, fun i hi => getElem?_storeExports stop hfits hstop hi fun h => absurd h hlast⟩
  rw [image_storeExports, if_neg hlast, length_writeAt]
  omega

/-- The image after a payload was replaced by one that is not longer. -/
theorem image_setExportData (hw : p.options.writable = true)
    (he : p.tables.exports[index]? = some e) (hshort : (data.length : Int) ≤ max e.size.toInt 0)
    (hrun : Change.setExportData index data p = (.ok (), p')) :
    p'.image = if Int32.ofNat data.length ≠ e.size then
      (Change.storeExports (p.withSize index data).exports (p.overwritten e data)).2.image
    else (p.overwritten e data).image := by
  rw [setExportData_eq data hw he, if_neg (by omega), overwritten_tables] at hrun
  split at hrun
  · next hsize =>
    rw [if_pos hsize, withSize, hrun]
  · next hsize =>
    rw [if_neg hsize]
    exact (congrArg (fun result => result.2.image) hrun).symm

end Package

/-- A payload that is not longer than the old one, which lies in the image, leaves the rest alone.
The export table that is written again stands where the one was that was read, and ends no later. If
one of the other tables begins behind it, the image keeps its length, and every byte that is neither
of the old payload nor of the table that was read stays as it is. -/
theorem setExportData_inPlace {name : String} {options : PackageOptions} {image data : List UInt8}
    {p p' : Package} {index : Nat} {e : ExportEntry}
    (hload : Package.load name options image = .ok p) (hw : options.writable = true)
    (he : p.tables.exports[index]? = some e) (hshort : (data.length : Int) ≤ max e.size.toInt 0)
    (hinside : ∀ range, e.dataRange? = some range → range.2 ≤ image.length)
    (hrun : Change.setExportData index data p = (.ok (), p')) :
    ∃ stop, p.header.exports.Spans image stop exportEntry p.tables.exports ∧
      p.header.exports.offset.toNat +
        (Encode.exportTable (p.withSize index data).exports).length ≤ stop ∧
      (Int32.ofNat data.length ≠ e.size → StandsAt p'.image p.header.exports.offset.toNat
        (Encode.exportTable (p.withSize index data).exports)) ∧
      (p.header.exports.offset < p.header.names.offset ∨
          p.header.exports.offset < p.header.imports.offset →
        p'.image.length = image.length ∧
        ∀ i, i < e.start ∨ e.start + e.size.toInt.toNat ≤ i →
          i < p.header.exports.offset.toNat ∨ stop ≤ i → p'.image[i]? = image[i]?) := by
  obtain ⟨hread, rfl, rfl⟩ := Package.load_eq_ok.1 hload
  obtain ⟨stop, hspans⟩ := Package.exists_spans_exports (readImage_eq_ok.1 hread).2.2.2.2 he
  have hfits := hspans.length_exportTable_le he (Package.natAbs_length_le hshort)
  have hin : data ≠ [] → e.start + data.length ≤ p.image.length := by
    intro hne
    have hpos := Package.size_pos_of_ne (e := e) (by omega) hne
    have hrange := hinside _ (ExportEntry.dataRange?_eq_some.2 ⟨hpos, rfl⟩)
    dsimp only at hrange
    omega
  have himage := Package.image_setExportData hw he hshort hrun
  have hother : ∀ i, i < e.start ∨ e.start + e.size.toInt.toNat ≤ i →
      (p.overwritten e data).image[i]? = p.image[i]? :=
    fun i hi => Package.getElem?_overwritten hin (by omega)
  refine ⟨stop, hspans, hfits, fun hsize => ?_, fun hbehind => ?_⟩
  · rw [himage, if_pos hsize, ← Package.overwritten_header]
    exact Package.standsAt_storeExports _ _
  have hlast : ¬(p.overwritten e data).ExportsLast := by
    rw [Package.exportsLast_overwritten, Package.ExportsLast, Decidable.not_and_iff_not_or_not]
    exact hbehind.imp UInt32.not_le.2 UInt32.not_le.2
  rw [himage]
  split
  · have hfits' : (p.overwritten e data).header.exports.offset.toNat +
        (Encode.exportTable (p.withSize index data).exports).length ≤ stop := by
      rwa [Package.overwritten_header]
    have hstop : stop ≤ (p.overwritten e data).image.length := by
      rw [Package.length_overwritten hin]
      exact hspans.2.2.1
    have hkept := Package.storeExports_inPlace hlast hfits' hstop
    rw [Package.length_overwritten hin, Package.overwritten_header] at hkept
    exact ⟨hkept.1, fun i hi hi' => (hkept.2 i hi').trans (hother i hi)⟩
  · exact ⟨Package.length_overwritten hin, fun i hi _ => hother i hi⟩

/-- A package whose export table takes more bytes than its numbers need: the class of the first
export and the size of its payload are stored in two bytes each. The names come last. -/
def Package.roomyExports : Package where
  image :=
    [0xC1, 0x83, 0x2A, 0x9E, 68, 0, 0, 0, 1, 0, 0, 0, 1, 0, 0, 0, 89, 0, 0, 0, 2, 0, 0, 0, 56, 0, 0,
      0, 0, 0, 0, 0, 99, 0, 0, 0, 0, 0, 0, 0, 0, 0, 0, 0, 0, 0, 0, 0, 0, 0, 0, 0, 0, 0, 0, 0, 0x40,
      0, 0, 0, 0, 0, 0, 0, 0, 0, 0, 0, 0x42, 0, 86, 1, 0, 0, 0, 0, 0, 0, 0, 0, 0, 0, 0, 1, 88, 1, 1,
      2, 7, 5, 78, 111, 110, 101, 0, 0, 0, 0, 0]
  header := ⟨68, 0, 1, ⟨1, 89⟩, ⟨2, 56⟩, ⟨0, 99⟩, ⟨0, 0, 0, 0⟩, []⟩
  tables := ⟨"P", [⟨"None", 0⟩], [],
    [⟨.none, .none, .none, 0, 0, 2, 86⟩, ⟨.none, .none, .none, 0, 0, 1, 88⟩]⟩
  options := { writable := true }

set_option maxRecDepth 2000 in
/-- An export table in more bytes than its numbers need: the new one ends before it, and the names
behind it stay where they are. -/
theorem setExportData_inPlace_roomy :
    ∃ p' stop, Change.setExportData 0 [9] Package.roomyExports = (.ok (), p') ∧
      56 + (Encode.exportTable (Package.roomyExports.withSize 0 [9]).exports).length ≤ stop ∧
      p'.image.length = 99 := by
  have hload : Package.load "P" Package.roomyExports.options Package.roomyExports.image =
      .ok Package.roomyExports := by rfl
  have he : Package.roomyExports.tables.exports[0]? =
    some ⟨.none, .none, .none, 0, 0, 2, 86⟩ := rfl
  have hshort : ([(9 : UInt8)].length : Int) ≤ max (2 : Int32).toInt 0 := by decide
  have hinside : ∀ range,
      (⟨.none, .none, .none, 0, 0, 2, 86⟩ : ExportEntry).dataRange? = some range →
      range.2 ≤ Package.roomyExports.image.length := by
    rintro _ ⟨⟩
    decide
  have hrun : Change.setExportData 0 [9] Package.roomyExports = (.ok (),
      { Package.roomyExports with
        image := writeAt (writeAt Package.roomyExports.image 86 [9]) 56
          (Encode.exportTable (Package.roomyExports.withSize 0 [9]).exports)
        tables := Package.roomyExports.withSize 0 [9] }) := by rfl
  obtain ⟨stop, -, hfits, -, hkept⟩ :=
    setExportData_inPlace hload rfl he hshort hinside hrun
  exact ⟨_, stop, hrun, hfits, (hkept (.inl (by decide))).1⟩

end UnrealPackage
