import UnrealPackage.Error
/-!
# Property templates

The fields of a struct are described by templates: name, kind of value, and into how many slots the
field is divided. A record in a property list carries a `PropertyTag`, which is coarser than the
kind: references to classes are stored as objects, and some kinds are never stored.
-/

namespace UnrealPackage

/-- What values a property takes. -/
inductive PropertyKind
  | byte
  | int
  | bool
  | float
  /-- A reference to an object of a class, given by its full name. -/
  | object (className : String)
  /-- A reference to a class. -/
  | classRef
  | name
  | str
  /-- A list of values of one kind, described by a template of its own. -/
  | array (innerName : String) (inner : PropertyKind) (innerSlots : UInt32)
  /-- The fields of a struct, given by its full name. -/
  | struct (structName : String)
  | delegate
  | map
  | fixedArray
  | pointer
deriving DecidableEq, Repr, Inhabited

/-- The word for a kind. -/
def PropertyKind.label : PropertyKind → String
  | byte => "Byte"
  | int => "Int"
  | bool => "Bool"
  | float => "Float"
  | object _ => "Object"
  | classRef => "Class"
  | name => "Name"
  | str => "Str"
  | array .. => "Array"
  | struct _ => "Struct"
  | delegate => "Delegate"
  | map => "Map"
  | fixedArray => "FixedArray"
  | pointer => "Pointer"

/-- The description of one field of a struct. -/
structure FieldTemplate where
  name : String
  kind : PropertyKind
  /-- Number of slots of a field that is a static array; zero counts as one. -/
  arrayDim : UInt32 := 1
deriving DecidableEq, Repr, Inhabited

/-- The number of slots that values can be put into. -/
def FieldTemplate.slotCount (t : FieldTemplate) : Nat :=
  max t.arrayDim.toNat 1

/-- The type of a record in a property list. -/
inductive PropertyTag
  | none
  | byte
  | int
  | bool
  | float
  | object
  | name
  | string
  | classRef
  | array
  | struct
  | vector
  | rotator
  | str
  | map
  | fixedArray
deriving DecidableEq, Repr, Inhabited

namespace PropertyTag

/-- The types in the order of their codes. -/
def all : List PropertyTag :=
  [none, byte, int, bool, float, object, name, string, classRef, array, struct, vector, rotator,
    str, map, fixedArray]

/-- The type of the four lowest bits of a byte. -/
def ofCode (code : UInt8) : PropertyTag :=
  all.getD (code.toNat % 16) fixedArray

/-- The code of a type. -/
def code (t : PropertyTag) : UInt8 :=
  (all.idxOf t).toUInt8

/-- Whether a record of this type fills a field written with type `expected`. -/
def accepts (t expected : PropertyTag) : Bool :=
  let isReference := fun u => u = object || u = classRef
  t = expected || (isReference t && isReference expected)

/-- The type that records of a kind are written with. -/
def ofKind : PropertyKind → Except Error PropertyTag
  | .byte => pure byte
  | .int => pure int
  | .bool => pure bool
  | .float => pure float
  | .object _ => pure object
  | .classRef => pure object
  | .name => pure name
  | .str => pure str
  | .array .. => pure array
  | .struct _ => pure struct
  | .map => pure map
  | .fixedArray => pure fixedArray
  | .delegate => throw (.notSerialised (PropertyKind.label .delegate))
  | .pointer => throw (.notSerialised (PropertyKind.label .pointer))

end PropertyTag

/-- The structs that are stored as plain numbers instead of a list of properties. -/
inductive PlainStruct
  | vector
  | rotator
  | color
deriving DecidableEq, Repr

/-- The plain struct of a short name, which must be spelled as here. -/
def PlainStruct.ofName? (name : String) : Option PlainStruct :=
  if name = "Vector" then some vector
  else if name = "Rotator" then some rotator
  else if name = "Color" then some color
  else none

end UnrealPackage
