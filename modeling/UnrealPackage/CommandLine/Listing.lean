import UnrealPackage.Flags
import UnrealPackage.Json.Basic
import UnrealPackage.Package.Basic
/-!
# Listings

The header and the tables of a package as lines of text with columns, or as JSON. References are
not aligned, all other columns are.
-/

namespace UnrealPackage.Listing

/-- A number in hexadecimal with a mark in front. -/
def marked (n : Nat) : String := "0x" ++ hex n

/-- How many records a table has and where it begins. -/
def extent (e : TableExtent) : String :=
  alignRight 6 (toString e.count.toNat) ++ " @ " ++ marked e.offset.toNat

/-- Where the payloads lie. -/
def dataBlock (p : Package) : String :=
  match p.dataStart, p.dataEnd with
  | .ok start, .ok stop => marked start ++ ".." ++ marked stop
  | _, _ => "(empty)"

/-- The header of the package read from `path`. -/
def info (path : String) (p : Package) : List String :=
  let h := p.header
  let flags := describeFlags h.flags packageFlagNames
  [ "── Unreal package ───────────────────────────────────────",
    "  Path           " ++ path,
    "  Name           " ++ p.tables.package,
    s!"  Version        {h.version.toNat} (licensee {h.licensee.toNat})",
    "  Flags          0x" ++ hexPadded 8 h.flags.toNat ++ " " ++ " ".intercalate flags,
    "  GUID           " ++ h.guid.text,
    "  Names          " ++ extent h.names,
    "  Imports        " ++ extent h.imports,
    "  Exports        " ++ extent h.exports,
    "  Data block     " ++ dataBlock p,
    s!"  Generations ({h.generations.length}):" ] ++
  h.generations.map fun g =>
    "    exports=" ++ alignLeft 6 (toString g.exportCount.toNat) ++ " names=" ++
      toString g.nameCount.toNat

/-- The name table. -/
def names (t : Tables) : List String :=
  t.names.zipIdx.map fun (e, i) =>
    alignRight 6 (toString i) ++ "  " ++ alignLeft 40 e.name ++ " " ++
      " ".intercalate (describeFlags e.flags objectFlagNames)

/-- The name table in JSON. -/
def namesJson (t : Tables) : Json :=
  .array (t.names.map fun e => .object [("name", .string e.name), ("flags", .nat e.flags.toNat)])

/-- An entry of the import or export table with the names that are listed. -/
structure Row (α : Type) where
  index : Nat
  reference : ObjectRef
  className : String
  fullName : String
  entry : α

/-- A reference as it is listed. -/
def Row.referenceText (r : Row α) : String := toString r.reference.value.toInt

/-- The members of a row in JSON, whatever its table. -/
def Row.members (r : Row α) : List (String × Json) := [
  ("index", .nat r.index), ("reference", .int r.reference.value.toInt),
  ("class", .string r.className), ("full_name", .string r.fullName)]

/-- The rows of the import table. -/
def importRows (t : Tables) : Except Error (List (Row ImportEntry)) :=
  t.imports.zipIdx.mapM fun (entry, index) => do
    let className ← t.importClassFullName index
    let fullName ← t.importFullName index
    pure { index, reference := .ofImport index, className, fullName, entry }

/-- The rows of the export table. -/
def exportRows (t : Tables) : Except Error (List (Row ExportEntry)) :=
  t.exports.zipIdx.mapM fun (entry, index) => do
    let reference := ObjectRef.ofExport index
    let className ← t.objectClassName reference
    let fullName ← t.exportFullName index
    pure { index, reference, className, fullName, entry }

/-- The import table. -/
def imports (rows : List (Row ImportEntry)) : List String :=
  rows.map fun r =>
    r.referenceText ++ "  " ++ alignLeft 24 r.className ++ " " ++ r.fullName

/-- The import table in JSON. -/
def importsJson (rows : List (Row ImportEntry)) : Json :=
  .array (rows.map fun r => .object r.members)

/-- The export table below a line with the names of its columns. -/
def exports (rows : List (Row ExportEntry)) : List String :=
  (alignRight 6 "Ref" ++ "  " ++ alignLeft 20 "Class" ++ " " ++ alignRight 8 "Size" ++ " " ++
    alignRight 10 "Offset" ++ "  Name") ::
  rows.map fun r =>
    r.referenceText ++ "  " ++ alignLeft 20 r.className ++ " " ++
      alignRight 8 (toString r.entry.size.toInt) ++ " " ++
      alignRight 10 (marked r.entry.offset.toUInt32.toNat) ++ "  " ++ r.fullName

/-- The export table in JSON. -/
def exportsJson (rows : List (Row ExportEntry)) : Json :=
  .array (rows.map fun r => .object (r.members ++ [
    ("flags", .nat r.entry.flags.toNat), ("size", .int r.entry.size.toInt),
    ("offset", .int r.entry.offset.toInt)]))

/-- Bytes in rows of sixteen behind their positions; `rows` is at least their number. -/
def hexRows : Nat → Nat → List UInt8 → List String
  | 0, _, _ => []
  | _, _, [] => []
  | rows + 1, position, bytes =>
    (hexPadded 8 position ++ "  " ++ hexBytes (bytes.take 16)) ::
      hexRows rows (position + 16) (bytes.drop 16)

/-- Bytes in rows of sixteen behind their positions. -/
def hexDump (bytes : List UInt8) : List String :=
  hexRows bytes.length 0 bytes

end UnrealPackage.Listing
