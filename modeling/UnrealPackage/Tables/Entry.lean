import UnrealPackage.Binary.Text
import UnrealPackage.Text.Case
import UnrealPackage.Tables.Reference
/-!
# Table entries

The records of the three tables of a package, each with its decoder and encoder. Numbers are compact
integers, but for the owner of an object and the flags, which take four bytes.
-/

namespace UnrealPackage

/-- An index into the name table. -/
abbrev NameIndex := Int32

/-- A name with its flags. -/
structure NameEntry where
  name : String
  flags : UInt32
deriving DecidableEq, Repr

/-- Whether two entries bear the same name. -/
def NameEntry.sameAs (a b : NameEntry) : Bool :=
  sameName a.name b.name

/-- An object of another package that this one refers to. -/
structure ImportEntry where
  /-- Name of the package that defines the object's class. -/
  classPackage : NameIndex
  /-- Name of the object's class. -/
  className : NameIndex
  /-- The object that owns this one. -/
  outer : ObjectRef
  /-- Name of the object. -/
  objectName : NameIndex
deriving DecidableEq, Repr

/-- An object that the package holds. -/
structure ExportEntry where
  /-- The object's class; none for a class. -/
  type : ObjectRef
  /-- The struct that the object, a struct itself, derives from. -/
  super : ObjectRef
  /-- The object that owns this one. -/
  outer : ObjectRef
  /-- Name of the object. -/
  objectName : NameIndex
  flags : UInt32
  /-- Length of the payload. -/
  size : Int32
  /-- Position of the payload in the image. -/
  offset : Int32
deriving DecidableEq, Repr

/-- The first position of an export's payload and the first one behind it, if it has a payload. -/
def ExportEntry.dataRange? (e : ExportEntry) : Option (Nat × Nat) :=
  if 0 < e.size.toInt then
    let start := e.offset.toUInt32.toNat
    some (start, start + e.size.toInt.toNat)
  else none

namespace Decode

/-- A reference as a compact integer. -/
def compactRef : Decode ObjectRef := ObjectRef.mk <$> compact

/-- A reference in four bytes. -/
def wideRef : Decode ObjectRef := ObjectRef.mk <$> i32

/-- A record of the name table. -/
def nameEntry (cs : Charset) : Decode NameEntry := do
  let name ← text cs
  let flags ← u32
  pure { name, flags }

/-- A record of the import table. -/
def importEntry : Decode ImportEntry := do
  let classPackage ← compact
  let className ← compact
  let outer ← wideRef
  let objectName ← compact
  pure { classPackage, className, outer, objectName }

/-- A record of the export table. -/
def exportEntry : Decode ExportEntry := do
  let type ← compactRef
  let super ← compactRef
  let outer ← wideRef
  let objectName ← compact
  let flags ← u32
  let size ← compact
  let offset ← compact
  pure { type, super, outer, objectName, flags, size, offset }

end Decode

namespace Encode

/-- A reference as a compact integer. -/
def compactRef (r : ObjectRef) : List UInt8 := compact r.value

/-- A record of the name table. -/
def nameEntry (cs : Charset) (e : NameEntry) : List UInt8 :=
  text cs e.name ++ u32 e.flags

/-- A record of the import table. -/
def importEntry (e : ImportEntry) : List UInt8 :=
  compact e.classPackage ++ compact e.className ++ i32 e.outer.value ++ compact e.objectName

/-- A record of the export table. -/
def exportEntry (e : ExportEntry) : List UInt8 :=
  compactRef e.type ++ compactRef e.super ++ i32 e.outer.value ++ compact e.objectName ++
    u32 e.flags ++ compact e.size ++ compact e.offset

/-- The name table. -/
def nameTable (cs : Charset) (names : List NameEntry) : List UInt8 :=
  names.flatMap (nameEntry cs)

/-- The import table. -/
def importTable (imports : List ImportEntry) : List UInt8 :=
  imports.flatMap importEntry

/-- The export table. -/
def exportTable (exports : List ExportEntry) : List UInt8 :=
  exports.flatMap exportEntry

end Encode

end UnrealPackage
