import UnrealPackage.Binary.Cursor
import UnrealPackage.Package.Header
import UnrealPackage.Script.Opcode
import UnrealPackage.Tables.FullName
/-!
# Packages

A package is a byte image together with what was read from it: the header and the three tables.
The header gives count and position of each table, so the tables may lie anywhere in the image.
-/

namespace UnrealPackage

/-- How a package is opened. -/
structure PackageOptions where
  /-- Whether the image may be changed. -/
  writable : Bool := false
  /-- Charset of the texts with one byte for each character. -/
  charset : Charset := .windows1252
  /-- Revision of the opcodes in its scripts. -/
  format : Script.ScriptFormat := .extended
deriving DecidableEq, Repr

/-- A package in memory. -/
structure Package where
  image : List UInt8
  header : Header
  tables : Tables
  options : PackageOptions
deriving DecidableEq, Repr

/-- The records of a table, found where the header says. -/
def readTable (image : List UInt8) (extent : TableExtent) (record : Decode α) :
    Except Error (List α) := do
  let (records, _) ← Decode.times record extent.count.toNat (image.drop extent.offset.toNat)
  pure records

/-- The header and the tables of the package called `name` that an image holds. -/
def readImage (name : String) (cs : Charset) (image : List UInt8) :
    Except Error (Header × Tables) := do
  let (header, _) ← Header.decode image
  let names ← readTable image header.names (Decode.nameEntry cs)
  let imports ← readTable image header.imports Decode.importEntry
  let exports ← readTable image header.exports Decode.exportEntry
  pure (header, ⟨name, names, imports, exports⟩)

namespace Package

/-- Opens an image as the package called `name`. -/
def load (name : String) (options : PackageOptions) (image : List UInt8) :
    Except Error Package := do
  let (header, tables) ← readImage name options.charset image
  pure { image, header, tables, options }

/-- Where the payloads lie, in the order of the exports that have one. -/
def dataRanges (p : Package) : List (Nat × Nat) :=
  p.tables.exports.filterMap ExportEntry.dataRange?

/-- The lowest position of a payload. -/
def dataStart (p : Package) : Except Error Nat :=
  match (p.dataRanges.map Prod.fst).min? with
  | some position => pure position
  | none => throw .emptyDataBlock

/-- The first position behind all payloads. -/
def dataEnd (p : Package) : Except Error Nat :=
  match (p.dataRanges.map Prod.snd).max? with
  | some position => pure position
  | none => throw .emptyDataBlock

/-- The payload of an entry, which has to lie inside the image. -/
def payload (p : Package) (e : ExportEntry) : Except Error (List UInt8) :=
  match e.dataRange? with
  | none => pure []
  | some (start, stop) => do
    let (data, _) ← Decode.bytes (stop - start) (p.image.drop start)
    pure data

/-- The payload of an export. -/
def exportData (p : Package) (index : Nat) : Except Error (List UInt8) := do
  let e ← p.tables.exportAt index
  p.payload e

end Package

end UnrealPackage
