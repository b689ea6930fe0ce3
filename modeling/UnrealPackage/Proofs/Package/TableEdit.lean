import UnrealPackage.Proofs.Package.Oversized
import UnrealPackage.Proofs.Package.Payload
/-!
# Editing one table

`TableEdit` is an edit of one of the three tables, by any function of its records. The package may
have come from anywhere: nothing is asked of where its tables lie, or whether they lie apart. Only
the payloads have to end behind the header, for otherwise the new tables would be written over it,
and there has to be a payload at all.

`TableEdit.change_exact` says that the edit then succeeds and what the package is like afterwards,
as the fields of `Package.Edited`.
-/

namespace UnrealPackage

/-- An edit of one of the tables. -/
inductive TableEdit
  | names (edit : List NameEntry → List NameEntry)
  | imports (edit : List ImportEntry → List ImportEntry)
  | exports (edit : List ExportEntry → List ExportEntry)

namespace TableEdit

/-- The tables after the edit. -/
def apply : TableEdit → Tables → Tables
  | names edit, t => { t with names := edit t.names }
  | imports edit, t => { t with imports := edit t.imports }
  | exports edit, t => { t with exports := edit t.exports }

/-- The change that makes the edit. -/
def change : TableEdit → Change Unit
  | names edit => Change.updateNames edit
  | imports edit => Change.updateImports edit
  | exports edit => Change.updateExports edit

theorem change_eq (edit : TableEdit) (p : Package) :
    edit.change p = Change.relocate (edit.apply p.tables) [] p := by
  cases edit <;> exact Change.relocateTables_eq _ p

theorem package_apply (edit : TableEdit) (t : Tables) : (edit.apply t).package = t.package := by
  cases edit <;> rfl

end TableEdit

namespace Package

/-- What `p` has become where its tables were stored as `t` from `position` on. -/
structure Edited (p p' : Package) (position : Nat) (t : Tables) : Prop where
  /-- The tables are those that were to be stored, in memory and in the image. -/
  tables : p'.tables = t
  load : Package.load p.tables.package p.options p'.image = .ok p'
  /-- The header says where they are and is otherwise the same. -/
  header : p'.header = { p.header with
    names := p'.header.names, imports := p'.header.imports, exports := p'.header.exports }
  begins : p'.header.names.offset.toNat = position
  inRow : p'.TablesInRow
  /-- In front of them, the bytes are the same but for the places in the header. -/
  bytes : ∀ i < position, i < Header.Position.names ∨ Header.Position.guid ≤ i →
    p'.image[i]? = some (p.image[i]?.getD 0)
  /-- Payloads in front of them are the same but for the places in the header. -/
  payloads : ∀ e ∈ t.exports, ∀ start stop, e.dataRange? = some (start, stop) →
    stop ≤ position → stop ≤ p.image.length →
    ∃ before after, p.payload e = .ok before ∧ p'.payload e = .ok after ∧
      after.length = before.length ∧
      ∀ i, start + i < Header.Position.names ∨ Header.Position.guid ≤ start + i →
        after[i]? = before[i]?

variable {p p' : Package} {e : ExportEntry} {start stop position : Nat} {t : Tables}

/-- A payload that lies in the image is what stands there. -/
theorem payload_of_dataRange (h : e.dataRange? = some (start, stop))
    (hstop : stop ≤ p.image.length) :
    p.payload e = .ok ((p.image.drop start).take (stop - start)) := by
  obtain ⟨-, hrange⟩ := ExportEntry.dataRange?_eq_some.1 h
  obtain ⟨rfl, rfl⟩ := Prod.mk.inj hrange
  have hlength : ((p.image.drop e.start).take (e.start + e.size.toInt.toNat - e.start)).length =
      e.size.toInt.toNat := by
    rw [List.length_take, List.length_drop]
    omega
  refine payload_eq_ok.2 ⟨hlength, fun i hi => ?_⟩
  rw [hlength] at hi
  rw [List.getElem?_take_of_lt (by omega), List.getElem?_drop]

/-- Where bytes in front of a position are kept, the payloads there are. -/
theorem payload_kept (hbytes : ∀ i < position, i < Header.Position.names ∨
      Header.Position.guid ≤ i → p'.image[i]? = some (p.image[i]?.getD 0))
    (hlength : position ≤ p'.image.length) (hrange : e.dataRange? = some (start, stop))
    (hstop : stop ≤ position) (hstop' : stop ≤ p.image.length) :
    ∃ before after, p.payload e = .ok before ∧ p'.payload e = .ok after ∧
      after.length = before.length ∧
      ∀ i, start + i < Header.Position.names ∨ Header.Position.guid ≤ start + i →
        after[i]? = before[i]? := by
  refine ⟨_, _, payload_of_dataRange hrange hstop', payload_of_dataRange hrange (by omega), ?_, ?_⟩
  · simp only [List.length_take, List.length_drop]
    omega
  · intro i hi
    by_cases hlt : i < stop - start
    · rw [List.getElem?_take_of_lt hlt, List.getElem?_take_of_lt hlt, List.getElem?_drop,
        List.getElem?_drop, hbytes _ (by omega) hi, List.getElem?_eq_getElem (by omega)]
      rfl
    · rw [List.getElem?_eq_none, List.getElem?_eq_none] <;>
        simp only [List.length_take] <;> omega

/-- Relocated tables without new payloads are an edit of the tables. -/
theorem Relocated.edited (h : p.Relocated p' t [] position)
    (hpackage : t.package = p.tables.package) : p.Edited p' position t := by
  obtain ⟨between, -, hlaid⟩ := h.laid
  refine ⟨h.tables, ?_, h.header, h.names_offset, hlaid.tablesInRow, h.bytes, ?_⟩
  · rw [← hpackage, ← h.tables, ← h.options]
    exact hlaid.load
  · exact fun e _ start stop => payload_kept h.bytes h.position_le

end Package

/-- Every edit of a table that fits is made exactly: the tables are stored behind all payloads and
read back, and nothing in front of them changes but their places in the header. A name fits unless
its length does not fit the number in front of it; the image fits below 4 GiB. -/
theorem TableEdit.change_exact (edit : TableEdit) {name : String} {options : PackageOptions}
    {image : List UInt8} {p : Package} {position : Nat}
    (hload : Package.load name options image = .ok p) (hw : options.writable = true)
    (hd : p.dataEnd = .ok position) (hpos : p.header.encodedLength ≤ position)
    (hs : ∀ e ∈ (edit.apply p.tables).names, StorableText e.name)
    (hsize : (edit.change p).2.image.length < 0x100000000) :
    ∃ p', edit.change p = (.ok (), p') ∧ p.Edited p' position (edit.apply p.tables) := by
  obtain ⟨hread, rfl, rfl⟩ := Package.load_eq_ok.1 hload
  obtain ⟨⟨tail, hheader⟩, rfl, -⟩ := readImage_eq_ok.1 hread
  obtain ⟨hg, himage⟩ := Header.decode_eq_ok.1 hheader
  rw [edit.change_eq] at hsize ⊢
  have hpackage := edit.package_apply p.tables
  obtain ⟨p', hrelocate, h⟩ := Change.relocate_ok hw hd himage hg hpos hpackage hs hsize
  exact ⟨p', hrelocate, h.edited hpackage⟩

/-- A package with one name and one export, whose payload is one byte. -/
def Package.single : Package where
  image :=
    [0xC1, 0x83, 0x2A, 0x9E, 68, 0, 0, 0, 1, 0, 0, 0, 1, 0, 0, 0, 65, 0, 0, 0, 1, 0, 0, 0, 75, 0, 0,
      0, 0, 0, 0, 0, 75, 0, 0, 0, 0, 0, 0, 0, 0, 0, 0, 0, 0, 0, 0, 0, 0, 0, 0, 0, 1, 0, 0, 0, 1, 0,
      0, 0, 1, 0, 0, 0, 7, 5, 78, 111, 110, 101, 0, 0, 0, 0, 0, 0, 0, 0, 0, 0, 0, 0, 0, 0, 0, 0, 1,
      0x40, 1]
  header := ⟨68, 0, 1, ⟨1, 65⟩, ⟨1, 75⟩, ⟨0, 75⟩, ⟨0, 0, 0, 0⟩, [⟨1, 1⟩]⟩
  tables := ⟨"P", [⟨"None", 0⟩], [], [⟨.none, .none, .none, 0, 0, 1, 64⟩]⟩
  options := { writable := true }

theorem Package.load_single :
    load "P" single.options single.image = .ok single := by
  rfl

/-- The tables of the package take a few bytes behind its payload, at 65. -/
theorem Package.roomy_single : single.Roomy 65 where
  load := ⟨_, load_single⟩
  writable := rfl
  isSingleByte := rfl
  dataEnd := by rfl
  behind := by decide
  storable := by decide
  room := by decide

/-- A name is appended to the names of a package. -/
theorem TableEdit.change_exact_single :
    ∃ p', (TableEdit.names (· ++ [⟨"Core", 0⟩])).change Package.single = (.ok (), p') ∧
      Package.single.Edited p' 65
        { Package.single.tables with names := [⟨"None", 0⟩, ⟨"Core", 0⟩] } := by
  have hs : ∀ e ∈ ((TableEdit.names (· ++ [⟨"Core", 0⟩])).apply Package.single.tables).names,
      StorableText e.name := by decide +kernel
  have hsize : ((TableEdit.names (· ++ [⟨"Core", 0⟩])).change Package.single).2.image.length <
      0x100000000 := by decide +kernel
  exact TableEdit.change_exact _ Package.load_single rfl Package.roomy_single.dataEnd (by decide) hs
    hsize

/-- A name that is too long is appended to the names of a package. -/
theorem Package.appendName_single {n : Nat} (hn : n = 0x7FFFFFFF) :
    ∃ image, Change.updateNames (· ++ [.ofLetters n 0]) single =
        (.error .truncated, { single with image }) ∧ image.length < 0x100000000 ∧
      ∀ name, load name single.options image = .error .truncated := by
  rw [Change.updateNames, Change.relocateTables_eq]
  exact roomy_single.relocate hn 0

/-- The guard on the names is needed: below 4 GiB, an edit may add a name that is too long to be
read back, and fails. -/
theorem TableEdit.change_exact_needs_storable :
    ¬ ∀ (edit : TableEdit) (name : String) (options : PackageOptions) (image : List UInt8)
      (p : Package) (position : Nat), Package.load name options image = .ok p →
      options.writable = true → p.dataEnd = .ok position → p.header.encodedLength ≤ position →
      (edit.change p).2.image.length < 0x100000000 → ∃ p', edit.change p = (.ok (), p') := by
  intro h
  obtain ⟨image, hrun, hsize, -⟩ := Package.appendName_single rfl
  have hedit : (names (· ++ [.ofLetters 0x7FFFFFFF 0])).change Package.single =
      (.error .truncated, { Package.single with image }) := hrun
  obtain ⟨_, hok⟩ := h _ _ _ _ _ _ Package.load_single rfl Package.roomy_single.dataEnd (by decide)
    (by rwa [hedit])
  rw [hedit] at hok
  cases hok

end UnrealPackage
