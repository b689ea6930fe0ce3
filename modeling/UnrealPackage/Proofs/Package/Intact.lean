import UnrealPackage.Package.Exports
import UnrealPackage.Proofs.Package.Imports
import UnrealPackage.Proofs.Package.Payload
import UnrealPackage.Proofs.Package.Relocation
import UnrealPackage.Proofs.Tables.Known
/-!
# Packages that keep their payloads

`Package.Intact p stored` is the invariant of a package that may be written: it has the layout
with the tables at the end, and between its header and its names each export has the payload in
`stored`. What a user of the package sees of it is `Package.Faithful`.

Everything else here says of one step of a change that it keeps the invariant, and what becomes of
`stored`. The one step that all changes of tables share is `Intact.relocate`.
-/

namespace UnrealPackage

open Decode

namespace Package

/-- A package with the tables at the end, whose exports have the payloads `stored`. -/
structure Intact (p : Package) (stored : List (List UInt8)) : Prop where
  writable : p.options.writable = true
  laid : ∃ body nameBytes, p.Laid body nameBytes
  placed : Placed p.image p.header.encodedLength p.header.names.offset.toNat p.tables.exports
    stored

/-- What can be relied on: the image says what is in memory, payloads lie apart between header and
names, the tables lie in a row behind them, and each payload is the one in `stored`. -/
structure Faithful (p : Package) (stored : List (List UInt8)) : Prop where
  load : Package.load p.tables.package p.options p.image = .ok p
  ranges : ∀ e ∈ p.tables.exports, ∀ start stop, e.dataRange? = some (start, stop) →
    p.header.encode.length ≤ start ∧ stop ≤ p.header.names.offset.toNat
  apart : p.tables.exports.Pairwise ExportEntry.Apart
  inRow : p.TablesInRow
  length : p.tables.exports.length = stored.length
  data : ∀ i data, stored[i]? = some data → p.exportData i = .ok data

variable {p : Package} {stored : List (List UInt8)}

theorem exportData_eq_payload {i : Nat} {e : ExportEntry} (he : p.tables.exports[i]? = some e) :
    p.exportData i = p.payload e := by
  rw [exportData, Tables.exportAt, he]
  rfl

theorem exportData_eq_ok {i : Nat} {e : ExportEntry} {data : List UInt8}
    (he : p.tables.exports[i]? = some e) (hd : p.payload e = .ok data) :
    p.exportData i = .ok data :=
  (exportData_eq_payload he).trans hd

/-- There is no payload where there is no export. -/
theorem exportData_of_none {i : Nat} (he : p.tables.exports[i]? = none) :
    p.exportData i = .error (.outOfRange .exports i p.tables.exports.length) := by
  rw [exportData, Tables.exportAt, he]
  rfl

/-- The invariant says all that can be relied on. -/
theorem Intact.faithful (h : p.Intact stored) : p.Faithful stored := by
  obtain ⟨body, nameBytes, hlaid⟩ := h.laid
  refine ⟨hlaid.load, ?_, ?_, hlaid.tablesInRow, h.placed.length.symm, ?_⟩
  · intro e he start stop hrange
    obtain ⟨hpos, hrange⟩ := ExportEntry.dataRange?_eq_some.1 hrange
    obtain ⟨rfl, rfl⟩ := Prod.mk.inj hrange
    obtain ⟨i, hi⟩ := List.getElem?_of_mem he
    obtain ⟨data, -, hholds⟩ := h.placed.exists_stored hi
    rw [Header.length_encode]
    exact hholds.between hpos
  · rw [List.pairwise_iff_getElem]
    intro i j hi hj hij
    exact h.placed.apart (Nat.ne_of_lt hij) (List.getElem?_eq_getElem hi)
      (List.getElem?_eq_getElem hj)
  · intro i data hd
    have hi : i < p.tables.exports.length := by
      rw [← h.placed.length]
      exact (List.getElem?_eq_some_iff.1 hd).1
    have he := List.getElem?_eq_getElem hi
    exact exportData_eq_ok he (h.placed.holds he hd).payload

namespace Intact

/-- The names that are in memory were read, so they can be stored. -/
theorem storable (h : p.Intact stored) : ∀ e ∈ p.tables.names, StorableText e.name := by
  obtain ⟨body, nameBytes, hlaid⟩ := h.laid
  have hlength := hlaid.length_image
  have hsize := hlaid.size
  have hnames := hlaid.reads []
  intro e he
  refine storable_of_nameTable hnames ?_ he
  rw [List.append_nil]
  omega

/-- There are fewer entries in each table than an index can count. -/
theorem length_tables_lt (h : p.Intact stored) : p.tables.names.length < 0x80000000 ∧
    p.tables.imports.length < 0x80000000 ∧ p.tables.exports.length < 0x80000000 := by
  obtain ⟨body, nameBytes, hlaid⟩ := h.laid
  exact hlaid.length_tables_lt

/-- Packages with the same payloads give the same ones. -/
theorem exportData_eq {p' : Package} (h : p.Intact stored) (h' : p'.Intact stored) (i : Nat) :
    p'.exportData i = p.exportData i := by
  cases hi : stored[i]? with
  | some data => rw [h'.faithful.data i data hi, h.faithful.data i data hi]
  | none =>
    have hlength := h.placed.length
    have hlength' := h'.placed.length
    have hle := List.getElem?_eq_none_iff.1 hi
    rw [exportData_of_none (List.getElem?_eq_none (by omega)),
      exportData_of_none (List.getElem?_eq_none (by omega)), ← hlength, ← hlength']

/-- From `p` on, the change keeps the invariant unless it makes the image too large. -/
def Keeps (stored : List (List UInt8)) (c : Change α) (p : Package) : Prop :=
  (c p).2.image.length < 0x100000000 → (c p).2.Intact stored

/-! ## Relocation -/

/-- A relocation behind the last payload stores what it was given. The exports it is given may be
more than there were, as long as those have no payload. -/
theorem relocate_ok (h : p.Intact stored) {t : Tables} {payloads : List PendingPayload}
    {stored' : List (List UInt8)} {position : Nat} (hd : p.dataEnd = .ok position)
    (hpackage : t.package = p.tables.package) (hs : ∀ e ∈ t.names, StorableText e.name)
    (hexports : ∀ image low high, Placed image low high p.tables.exports stored →
      Placed image low high t.exports stored')
    (hdata : ∀ x ∈ payloads, x.data.length < 0x80000000)
    (hsize : (Change.relocate t payloads p).2.image.length < 0x100000000) :
    ∃ p', Change.relocate t payloads p = (.ok (), p') ∧
      p'.tables = Change.placedTables t position payloads ∧
      p'.Intact (payloads.foldl (fun stored x => stored.set x.index x.data) stored') := by
  obtain ⟨body, nameBytes, hlaid⟩ := h.laid
  obtain ⟨hlow, hhigh, hplaced⟩ := h.placed.dataEnd hd
  obtain ⟨p', hrelocate, hp'⟩ := Change.relocate_ok h.writable hd hlaid.image hlaid.generations
    hlow hpackage hs hsize
  obtain ⟨between, -, hlaid'⟩ := hp'.laid
  have hsize' := hlaid'.size
  have hle := hp'.position_le
  have hnames := hlaid.tablesInRow.names
  have hkept := (hexports _ _ _ hplaced).congr (Nat.le_refl _) fun i hi hi' => by
    have hheader : 36 ≤ p.header.encodedLength := by
      simp only [Header.encodedLength, Header.Position.generations]
      omega
    rw [hp'.bytes i hi' (.inr (Nat.le_trans hheader hi)), List.getElem?_eq_getElem]
    · rfl
    · exact Nat.lt_of_lt_of_le hi' (Nat.le_trans hhigh (Nat.le_trans hnames.2.1 hnames.2.2.1))
  refine ⟨p', hrelocate, hp'.tables, hp'.options ▸ h.writable, ⟨_, _, hlaid'⟩, ?_⟩
  rw [hp'.encodedLength, hp'.names_offset, hp'.tables]
  exact hkept.placeAll hlow (Nat.le_refl _) (by omega) hdata hp'.standsAt

/-- A relocation leaves the package as it was or stores what it was given. -/
theorem relocate (h : p.Intact stored) {t : Tables} {payloads : List PendingPayload}
    {stored' : List (List UInt8)} (hpackage : t.package = p.tables.package)
    (hs : ∀ e ∈ t.names, StorableText e.name)
    (hexports : ∀ image low high, Placed image low high p.tables.exports stored →
      Placed image low high t.exports stored')
    (hdata : ∀ x ∈ payloads, x.data.length < 0x80000000)
    (hsize : (Change.relocate t payloads p).2.image.length < 0x100000000) :
    (∃ e, Change.relocate t payloads p = (.error e, p)) ∨
      ∃ p', Change.relocate t payloads p = (.ok (), p') ∧ p'.tables.names = t.names ∧
        p'.Intact (payloads.foldl (fun stored x => stored.set x.index x.data) stored') := by
  cases hd : p.dataEnd with
  | error e => exact .inl ⟨e, Change.relocate_error h.writable hd⟩
  | ok position =>
    obtain ⟨p', hrelocate, htables, hintact⟩ := h.relocate_ok hd hpackage hs hexports hdata hsize
    have hnames := congrArg Tables.names htables
    exact .inr ⟨p', hrelocate, hnames, hintact⟩

/-- Edits of the names and the imports leave the payloads alone. -/
theorem relocateTables (h : p.Intact stored) {edit : Tables → Tables}
    (hpackage : (edit p.tables).package = p.tables.package)
    (hexports : (edit p.tables).exports = p.tables.exports)
    (hs : ∀ e ∈ (edit p.tables).names, StorableText e.name) :
    Keeps stored (Change.relocateTables edit) p := by
  intro hsize
  rw [Change.relocateTables_eq] at hsize ⊢
  rcases h.relocate hpackage hs (fun _ _ _ hp => hexports ▸ hp)
      (by simp) hsize with
    ⟨e, he⟩ | ⟨p', hp', -, hintact⟩
  · rwa [he]
  · rwa [hp']

theorem updateNames (h : p.Intact stored) {edit : List NameEntry → List NameEntry}
    (hs : ∀ e ∈ edit p.tables.names, StorableText e.name) :
    Keeps stored (Change.updateNames edit) p :=
  h.relocateTables rfl rfl hs

theorem updateImports (h : p.Intact stored) {edit : List ImportEntry → List ImportEntry} :
    Keeps stored (Change.updateImports edit) p :=
  h.relocateTables rfl rfl h.storable

/-! ## Names and imports -/

theorem addNames (h : p.Intact stored) {entries : List NameEntry}
    (hs : ∀ e ∈ entries, StorableText e.name) : Keeps stored (Change.addNames entries) p := by
  have hnames : ∀ e ∈ entries.foldl addMissing p.tables.names, StorableText e.name :=
    (namesAdded_foldl _ _).forall_mem h.storable hs
  exact Change.keeps_addNames (P := fun p => p.Intact stored) h (h.updateNames hnames)

theorem updateName (h : p.Intact stored) {index : Nat} {e : NameEntry}
    (hs : StorableText e.name) : Keeps stored (Change.updateName index e) p :=
  Change.keeps_gets (P := fun p => p.Intact stored) h fun _ _ =>
    h.updateNames (storable_set h.storable hs)

/-- The steps that all changes of imports are made of keep the invariant. -/
theorem stable : Change.Stable fun p => p.Intact stored where
  addNames h hs := h.addNames hs
  updateImports h := h.updateImports

/-! ## The header -/

/-- A field of the header that does not move the tables is written in its place. -/
theorem setField (h : p.Intact stored) {position : Nat} {data : List UInt8} {set : Header → Header}
    (hpatched : p.header.Patched (set p.header) position data)
    (hnames : (set p.header).names = p.header.names)
    (himports : (set p.header).imports = p.header.imports)
    (hexports : (set p.header).exports = p.header.exports)
    (hcount : (set p.header).generations.length = p.header.generations.length) :
    (Change.setField position data set p).2.Intact stored := by
  rw [Change.setField_ok h.writable]
  obtain ⟨body, nameBytes, hlaid⟩ := h.laid
  have hlength : (set p.header).encodedLength = p.header.encodedLength := by
    rw [Header.encodedLength, Header.encodedLength, hcount]
  have himage := hpatched.writeAt (body ++ (nameBytes ++
    (Encode.importTable p.tables.imports ++ Encode.exportTable p.tables.exports)))
  rw [← hlaid.image] at himage
  have hsame : (writeAt p.image position data).length = p.image.length := by
    have hnew := congrArg List.length himage
    have hold := congrArg List.length hlaid.image
    simp only [List.length_append, Header.length_encode] at hnew hold
    omega
  refine ⟨h.writable, ⟨body, nameBytes, himage, ?_, ?_, hlaid.reads, ?_, ?_, ?_⟩, ?_⟩
  · exact Nat.lt_of_le_of_lt (Nat.le_of_eq hsame) hlaid.size
  · exact Nat.le_trans (Nat.le_of_eq hcount) hlaid.generations
  · simpa only [hnames, hlength] using hlaid.names
  · simpa only [himports, hlength] using hlaid.imports
  · simpa only [hexports, hlength] using hlaid.exports
  · simp only [hnames, hlength]
    refine h.placed.congr (Nat.le_refl _) fun i hi _ => ?_
    have hi' : (set p.header).encode.length ≤ i := by rwa [Header.length_encode, hlength]
    have hi'' : p.header.encode.length ≤ i := by rwa [Header.length_encode]
    rw [himage, hlaid.image, List.getElem?_append_right hi', List.getElem?_append_right hi'',
      Header.length_encode, Header.length_encode, hlength]

theorem setVersion (h : p.Intact stored) (version : UInt16) :
    (Change.setVersion version p).2.Intact stored :=
  h.setField (p.header.patched_version version) rfl rfl rfl rfl

theorem setLicensee (h : p.Intact stored) (licensee : UInt16) :
    (Change.setLicensee licensee p).2.Intact stored :=
  h.setField (p.header.patched_licensee licensee) rfl rfl rfl rfl

theorem setFlags (h : p.Intact stored) (flags : UInt32) :
    (Change.setFlags flags p).2.Intact stored :=
  h.setField (p.header.patched_flags flags) rfl rfl rfl rfl

theorem setGuid (h : p.Intact stored) (guid : Guid) : (Change.setGuid guid p).2.Intact stored :=
  h.setField (p.header.patched_guid guid) rfl rfl rfl rfl

/-- Generations are written only if their number fits the place that there is. -/
theorem setGenerations (h : p.Intact stored) (generations : List Generation) :
    (Change.setGenerations generations p).2.Intact stored := by
  rw [Change.setGenerations, Change.bind_ok (Change.ensureWritable_ok h.writable)]
  refine Change.after_gets (P := fun p => p.Intact stored) h fun _ hcount => ?_
  have hlength : generations.length = p.header.generations.length := by
    by_cases hl : generations.length = p.header.generations.length
    · exact hl
    · simp only [hl, if_false] at hcount
      cases hcount
  exact h.setField (p.header.patched_generations hlength) rfl rfl rfl hlength

end Intact

end Package

end UnrealPackage
