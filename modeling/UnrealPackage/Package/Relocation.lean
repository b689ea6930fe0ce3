import UnrealPackage.Flags
import UnrealPackage.Package.Change
/-!
# Relocation

Tables are never edited where they lie. New payloads go behind all others, the name, import and
export tables follow them without a gap, the image ends there, and the six fields of the header that
place the tables are set. What lies in front of the new payloads stays as it is.

`relocatedImage` is this step on bytes, `Change.relocate` the change that also reads the result.
-/

namespace UnrealPackage

/-- A payload to be stored, with the index of the export it belongs to. -/
structure PendingPayload where
  index : Nat
  data : List UInt8
deriving DecidableEq, Repr

/-- The export at an index with its payload placed at `position`. -/
def placePayload (exports : List ExportEntry) (position : Nat) (pending : PendingPayload) :
    List ExportEntry :=
  exports.modify pending.index fun e =>
    { e with offset := Int32.ofNat position, size := Int32.ofNat pending.data.length }

/-- The exports with payloads placed one after the other from `position` on. -/
def placePayloads (exports : List ExportEntry) (position : Nat) :
    List PendingPayload → List ExportEntry
  | [] => exports
  | pending :: rest =>
    placePayloads (placePayload exports position pending) (position + pending.data.length) rest

/-- The extent of a table of `count` records at `position`, in the width of the header. -/
def TableExtent.at (count position : Nat) : TableExtent :=
  ⟨UInt32.ofNat count, UInt32.ofNat position⟩

/-- The three tables in a row, as they are to stand at `position`. -/
structure TableBlock where
  position : Nat
  names : List UInt8
  imports : List UInt8
  exports : List UInt8

namespace TableBlock

/-- The records of the tables for a block at `position`. -/
def ofTables (cs : Charset) (t : Tables) (position : Nat) : TableBlock where
  position
  names := Encode.nameTable cs t.names
  imports := Encode.importTable t.imports
  exports := Encode.exportTable t.exports

/-- The bytes of the block. -/
def bytes (b : TableBlock) : List UInt8 :=
  b.names ++ b.imports ++ b.exports

/-- The header of a package whose tables `t` stand in the block. -/
def place (b : TableBlock) (t : Tables) (h : Header) : Header :=
  { h with
    names := .at t.names.length b.position
    imports := .at t.imports.length (b.position + b.names.length)
    exports := .at t.exports.length (b.position + b.names.length + b.imports.length) }

end TableBlock

/-- The six fields of the header that place the tables, as they stand in the image. -/
def Header.extents (h : Header) : List UInt8 :=
  Encode.tableExtent h.names ++ Encode.tableExtent h.exports ++ Encode.tableExtent h.imports

/-- The image in which `payloads` and the tables `t` take the place of everything from `position`
on. -/
def relocatedImage (cs : Charset) (image : List UInt8) (h : Header) (position : Nat)
    (payloads : List PendingPayload) (t : Tables) : List UInt8 :=
  let payload := payloads.flatMap PendingPayload.data
  let block := TableBlock.ofTables cs t (position + payload.length)
  let written := writeAt image position (payload ++ block.bytes)
  let cut := resize written (position + payload.length + block.bytes.length)
  writeAt cut Header.Position.names (block.place t h).extents

namespace Change

/-- Stores payloads and new tables behind all payloads of the package. -/
def relocate (t : Tables) (payloads : List PendingPayload) : Change Unit := do
  ensureWritable
  let position ← gets Package.dataEnd
  let placed := { t with exports := placePayloads t.exports position payloads }
  update fun p =>
    { p with image := relocatedImage p.options.charset p.image p.header position payloads placed }
  reload

/-- Stores tables made from those of the package. -/
def relocateTables (edit : Tables → Tables) : Change Unit := do
  let t ← gets fun p => pure p.tables
  relocate (edit t) []

/-- Edits the name table. -/
def updateNames (edit : List NameEntry → List NameEntry) : Change Unit :=
  relocateTables fun t => { t with names := edit t.names }

/-- Edits the import table. -/
def updateImports (edit : List ImportEntry → List ImportEntry) : Change Unit :=
  relocateTables fun t => { t with imports := edit t.imports }

/-- Edits the export table. -/
def updateExports (edit : List ExportEntry → List ExportEntry) : Change Unit :=
  relocateTables fun t => { t with exports := edit t.exports }

end Change

/-- The names with an entry at the end, unless one of them bears the same name. -/
def addMissing (names : List NameEntry) (e : NameEntry) : List NameEntry :=
  if names.any e.sameAs then names else names ++ [e]

namespace Change

/-- Appends the names that are not there yet and gives their number. -/
def addNames (entries : List NameEntry) : Change Nat := do
  let before ← gets fun p => pure p.tables.names
  let after := entries.foldl addMissing before
  let added := after.length - before.length
  if 0 < added then updateNames fun _ => after
  pure added

/-- Replaces an entry of the name table. -/
def updateName (index : Nat) (e : NameEntry) : Change Unit := do
  gets fun p =>
    let length := p.tables.names.length
    if index < length then pure () else throw (.outOfRange .names index length)
  updateNames fun names => names.set index e

/-- Adds those of some names that are not there yet. -/
def ensureNames (names : List String) : Change Unit := do
  let missing ← gets fun p => pure (names.filter fun n => (p.tables.nameIndex? n).isNone)
  if !missing.isEmpty then
    let _ ← addNames (missing.map fun n => ⟨n, implicitFlags⟩)

end Change

end UnrealPackage
