import UnrealPackage.Package.Draft
import UnrealPackage.Proofs.Package.Intact
/-!
# New packages keep their payloads

`Draft.intact`: what a draft stores, whatever was in the storage before, is opened as a package that
keeps the draft's payloads. It may be opened with another charset than it was written with: the
names may then read differently, but they end where they were written to end (`Laid.of_load`).
-/

namespace UnrealPackage

open Decode

/-! ## Opening with another charset -/

/-- A package with the layout has it however it is opened. -/
theorem Package.Laid.of_load {w p : Package} {body nameBytes : List UInt8} {name : String}
    {options : PackageOptions} (hlaid : w.Laid body nameBytes)
    (hload : Package.load name options w.image = .ok p) :
    p.Laid body nameBytes ∧ p.header = w.header ∧ p.tables.exports = w.tables.exports ∧
      p.image = w.image ∧ p.options = options := by
  obtain ⟨hread, himage, hoptions⟩ := Package.load_eq_ok.1 hload
  obtain ⟨⟨_, hheader⟩, -, hnames, himports, hexports⟩ := readImage_eq_ok.1 hread
  obtain ⟨⟨_, hheader'⟩, -, -, himports', hexports'⟩ := readImage_eq_ok.1 hlaid.readImage
  obtain ⟨hh, -⟩ := Prod.mk.inj (Except.ok.inj (hheader.symm.trans hheader'))
  rw [hh] at hnames himports hexports
  have hi := Except.ok.inj (himports.symm.trans himports')
  have he := Except.ok.inj (hexports.symm.trans hexports')
  obtain ⟨rest, hnames⟩ := readTable_eq_ok.1 hnames
  obtain ⟨hn, -⟩ := hlaid.places
  rw [hn.1, hn.2, hlaid.image_names, List.drop_left] at hnames
  have hcount := length_of_times hnames
  obtain rfl := rest_of_nameTable hnames (hlaid.reads _)
  obtain ⟨front, hfront, hreads⟩ := (framed_nameEntry _).times _ hnames
  obtain rfl := List.append_cancel_right hfront
  refine ⟨⟨?_, ?_, ?_, ?_, ?_, ?_, ?_⟩, hh, he, himage, hoptions⟩
  · rw [himage, hh, hi, he]
    exact hlaid.image
  · exact himage ▸ hlaid.size
  · exact hh ▸ hlaid.generations
  · rwa [hcount, hoptions]
  · rw [hh, hcount]
    exact hlaid.names
  · rw [hh, hi]
    exact hlaid.imports
  · rw [hh, hi, he]
    exact hlaid.exports

namespace Draft

variable {d : Draft} {cs : Charset} {image storage : List UInt8}

/-! ## What is stored -/

/-- Whatever the storage held, it then holds the image. -/
theorem store_eq_ok : d.store cs storage = .ok image ↔ d.image cs = .ok image := by
  rw [store, except_bind_eq_ok]
  have hstored : ∀ data : List UInt8, resize (writeAt storage 0 data) data.length = data := by
    intro data
    have h := resize_writeAt storage 0 data
    rwa [Nat.zero_add, resize_zero, List.nil_append] at h
  constructor
  · rintro ⟨stored, hstore, hp⟩
    rw [hstored] at hp
    cases hp
    exact hstore
  · intro h
    exact ⟨image, h, congrArg Except.ok (hstored image)⟩

/-- Payloads that stand in a row are placed in it. -/
theorem placed_placeExports {position : Nat} {items : List (ExportEntry × List UInt8)}
    {exports : List ExportEntry} (h : placeExports position items = .ok exports)
    (hdata : ∀ x ∈ items, x.2.length < 0x80000000)
    (hs : StandsAt image position (items.flatMap Prod.snd)) :
    Placed image position (position + (items.flatMap Prod.snd).length) exports
      (items.map Prod.snd) := by
  induction items generalizing position exports with
  | nil =>
    cases h
    exact ⟨rfl, nofun, nofun⟩
  | cons x items ih =>
    obtain ⟨e, data⟩ := x
    obtain ⟨hpos, h⟩ : position < 0x80000000 ∧ _ := by
      rw [placeExports] at h
      split at h
      · cases h
      · exact ⟨by omega, h⟩
    obtain ⟨others, hothers, hp⟩ := except_bind_eq_ok.1 h
    cases hp
    rw [List.flatMap_cons, standsAt_append_iff] at hs
    rw [List.flatMap_cons, List.length_append, ← Nat.add_assoc]
    have hdata' := hdata _ List.mem_cons_self
    exact (ih hothers (fun y hy => hdata y (List.mem_cons_of_mem _ hy)) hs.2).cons
      (e.holds_at (by omega) hdata' hs.1) (Nat.le_add_right _ _) (Nat.le_add_right _ _)

/-- The image of a draft is that of a package with the draft's payloads in a row. -/
theorem laid_of_image (himage : d.image cs = .ok image)
    (hg : d.generations.length ≤ Header.generationLimit)
    (hs : ∀ e ∈ d.names, StorableText e.name) (hsize : image.length < 0x100000000) :
    ∃ (w : Package) (nameBytes : List UInt8), w.image = image ∧
      w.Laid (d.exports.flatMap Prod.snd) nameBytes ∧
      placeExports w.header.encodedLength d.exports = .ok w.tables.exports := by
  obtain ⟨exports, hexports, hp⟩ := except_bind_eq_ok.1 himage
  have hlimit : d.header.generations.length ≤ Header.generationLimit := by
    rw [header]
    dsimp only
    split
    · exact (by decide : 1 ≤ Header.generationLimit)
    · exact hg
  have heq := Except.ok.inj hp
  rw [List.append_assoc] at heq
  exact ⟨_, _, rfl, Package.laid_of_block ⟨false, cs, .extended⟩ hlimit hs rfl heq.symm hsize,
    hexports⟩

/-- A draft whose image is opened has a plausible number of generations. -/
theorem generations_le {name : String} {options : PackageOptions} {p : Package}
    (himage : d.image cs = .ok image) (hload : Package.load name options image = .ok p)
    (hsize : image.length < 0x100000000) : d.generations.length ≤ Header.generationLimit := by
  obtain ⟨exports, -, hp⟩ := except_bind_eq_ok.1 himage
  obtain ⟨⟨rest, hheader⟩, -⟩ := readImage_eq_ok.1 (Package.load_eq_ok.1 hload).1
  have heq := Except.ok.inj hp
  rw [List.append_assoc] at heq
  rw [← heq] at hheader hsize
  have hlimit := Header.generations_le_of_decode hheader hsize
  simp only [TableBlock.place, header] at hlimit
  split at hlimit
  · next hempty =>
    rw [List.isEmpty_iff.1 hempty]
    exact Nat.zero_le _
  · exact hlimit

/-- What a draft stores is a package that keeps the draft's payloads, however it is opened. -/
theorem intact {name : String} {options : PackageOptions} {p : Package}
    (hstore : d.store cs storage = .ok image) (hload : Package.load name options image = .ok p)
    (hw : options.writable = true) (hg : d.generations.length ≤ Header.generationLimit)
    (hs : ∀ e ∈ d.names, StorableText e.name) (hdata : ∀ x ∈ d.exports, x.2.length < 0x80000000)
    (hsize : image.length < 0x100000000) : p.Intact (d.exports.map Prod.snd) := by
  obtain ⟨w, nameBytes, rfl, hlaid, hexports⟩ :=
    laid_of_image (store_eq_ok.1 hstore) hg hs hsize
  obtain ⟨hlaid', hheader, hexports', himage, hoptions⟩ := hlaid.of_load hload
  refine ⟨hoptions ▸ hw, ⟨_, nameBytes, hlaid'⟩, ?_⟩
  rw [himage, hheader, hexports', hlaid.names.2]
  exact placed_placeExports hexports hdata hlaid.standsAt_body

end Draft

end UnrealPackage
