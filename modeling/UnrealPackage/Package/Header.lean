import UnrealPackage.Binary.Decode
import UnrealPackage.Text.Digits
/-!
# The header of a package

A package begins with a signature, the version of its format, its flags, count and position of the
three tables, an identifier, and one record for each time it was saved. All but the last has a
fixed place, listed in `Header.Position`.
-/

namespace UnrealPackage

/-- A 128-bit identifier. -/
structure Guid where
  a : UInt32
  b : UInt32
  c : UInt32
  d : UInt32
deriving DecidableEq, Repr, Inhabited

/-- The sizes of two tables when the package was saved. -/
structure Generation where
  exportCount : UInt32
  nameCount : UInt32
deriving DecidableEq, Repr

/-- How many records a table has and where it begins. -/
structure TableExtent where
  count : UInt32
  offset : UInt32
deriving DecidableEq, Repr, Inhabited

/-- The header of a package. -/
structure Header where
  version : UInt16
  licensee : UInt16
  flags : UInt32
  names : TableExtent
  exports : TableExtent
  imports : TableExtent
  guid : Guid
  generations : List Generation
deriving DecidableEq, Repr

namespace Encode

/-- The sixteen bytes of an identifier. -/
def guid (g : Guid) : List UInt8 :=
  u32 g.a ++ u32 g.b ++ u32 g.c ++ u32 g.d

/-- Count and position of a table. -/
def tableExtent (e : TableExtent) : List UInt8 :=
  u32 e.count ++ u32 e.offset

/-- The number of generations and the generations. -/
def generations (gs : List Generation) : List UInt8 :=
  u32 (UInt32.ofNat gs.length) ++ gs.flatMap fun g => u32 g.exportCount ++ u32 g.nameCount

end Encode

namespace Decode

/-- The sixteen bytes of an identifier. -/
def guid : Decode Guid := do
  let a ← u32
  let b ← u32
  let c ← u32
  let d ← u32
  pure { a, b, c, d }

/-- Count and position of a table. -/
def tableExtent : Decode TableExtent := do
  let count ← u32
  let offset ← u32
  pure { count, offset }

/-- The sizes of one generation. -/
def generation : Decode Generation := do
  let exportCount ← u32
  let nameCount ← u32
  pure { exportCount, nameCount }

end Decode

/-- An identifier in hexadecimal, its bytes in the order of the file, in groups of four, two, two,
two and six. -/
def Guid.text (g : Guid) : String :=
  let bytes := Encode.guid g
  "-".intercalate
    ([bytes.take 4, (bytes.drop 4).take 2, (bytes.drop 6).take 2, (bytes.drop 8).take 2,
      bytes.drop 10].map hexBytes)

namespace Header

/-- The four bytes at the beginning of every package. -/
def magic : UInt32 := 0x9E2A83C1

/-- More generations than any package has. -/
def generationLimit : Nat := 0xFFFF

/-! ## Places of the fields -/

namespace Position

def version : Nat := 4
def licensee : Nat := 6
def flags : Nat := 8
def names : Nat := 12
def exports : Nat := 20
def imports : Nat := 28
def guid : Nat := 36
def generations : Nat := 52

end Position

/-- Length of the header in the image. -/
def encodedLength (h : Header) : Nat :=
  Position.generations + 4 + 8 * h.generations.length

/-- The header as it stands in the image. -/
def encode (h : Header) : List UInt8 :=
  Encode.u32 magic ++ Encode.u16 h.version ++ Encode.u16 h.licensee ++ Encode.u32 h.flags ++
    Encode.tableExtent h.names ++ Encode.tableExtent h.exports ++ Encode.tableExtent h.imports ++
    Encode.guid h.guid ++ Encode.generations h.generations

/-- The header at the beginning of an image. -/
def decode : Decode Header := do
  let found ← Decode.u32
  if found ≠ magic then throw (.badMagic found)
  let version ← Decode.u16
  let licensee ← Decode.u16
  let flags ← Decode.u32
  let names ← Decode.tableExtent
  let exports ← Decode.tableExtent
  let imports ← Decode.tableExtent
  let guid ← Decode.guid
  let count ← Decode.u32
  if generationLimit < count.toNat then throw (.implausibleGenerations count.toNat)
  let generations ← Decode.times Decode.generation count.toNat
  pure { version, licensee, flags, names, exports, imports, guid, generations }

end Header

end UnrealPackage
