import UnrealPackage.Error
import UnrealPackage.Flags
import UnrealPackage.Package.Header
import UnrealPackage.Tables.Entry
/-!
# Field records

A script type is stored as a chain of exports: a struct points at its first field, each field at
the next one, and each struct at its super. What else a record holds depends on its class, which
`FieldBody` tells by its constructors; a property's references come with its type, so that no
record can hold those of another class.
-/

namespace UnrealPackage

/-- The class of a field. -/
inductive FieldClass
  | byteProperty
  | intProperty
  | boolProperty
  | floatProperty
  | objectProperty
  | classProperty
  | nameProperty
  | strProperty
  | stringProperty
  | arrayProperty
  | structProperty
  | delegateProperty
  | mapProperty
  | fixedArrayProperty
  | pointerProperty
  | struct
  | function
  | state
  | classType
  | enum
  | const
deriving DecidableEq, Repr, Inhabited

namespace FieldClass

/-- The classes with their short names. -/
def names : List (String × FieldClass) := [
  ("ByteProperty", byteProperty), ("IntProperty", intProperty), ("BoolProperty", boolProperty),
  ("FloatProperty", floatProperty), ("ObjectProperty", objectProperty),
  ("ClassProperty", classProperty), ("NameProperty", nameProperty), ("StrProperty", strProperty),
  ("StringProperty", stringProperty), ("ArrayProperty", arrayProperty),
  ("StructProperty", structProperty), ("DelegateProperty", delegateProperty),
  ("MapProperty", mapProperty), ("FixedArrayProperty", fixedArrayProperty),
  ("PointerProperty", pointerProperty), ("Struct", struct), ("Function", function),
  ("State", state), ("Class", classType), ("Enum", enum), ("Const", const)]

/-- The class of a short name, which must be spelled as in the list. -/
def ofName (name : String) : Except Error FieldClass :=
  match names.lookup name with
  | some c => pure c
  | none => throw (.unknownFieldClass name)

/-- The short name of a class. -/
def name (c : FieldClass) : String :=
  match names.find? (·.2 == c) with
  | some (word, _) => word
  | none => ""

/-- Whether a field of the class is a property. -/
def isProperty : FieldClass → Bool
  | struct | function | state | classType | enum | const => false
  | _ => true

end FieldClass

/-- The type of a property with what it refers to. -/
inductive PropertyType
  | byte (enumType : ObjectRef)
  | int
  | bool
  | float
  | object (objectType : ObjectRef)
  | classRef (objectType metaClass : ObjectRef)
  | name
  | str
  | string
  | array (inner : ObjectRef)
  | struct (structType : ObjectRef)
  | delegate (function : ObjectRef)
  | map (key value : ObjectRef)
  | fixedArray (inner : ObjectRef) (count : Int32)
  | pointer
deriving DecidableEq, Repr

/-- The class of a property of this type. -/
def PropertyType.fieldClass : PropertyType → FieldClass
  | byte _ => .byteProperty
  | int => .intProperty
  | bool => .boolProperty
  | float => .floatProperty
  | object _ => .objectProperty
  | classRef .. => .classProperty
  | name => .nameProperty
  | str => .strProperty
  | string => .stringProperty
  | array _ => .arrayProperty
  | struct _ => .structProperty
  | delegate _ => .delegateProperty
  | map .. => .mapProperty
  | fixedArray .. => .fixedArrayProperty
  | pointer => .pointerProperty

/-- The body of a property. -/
structure PropertyInfo where
  arrayDim : UInt16
  elementSize : UInt16
  flags : UInt32
  category : NameIndex
  /-- Present if the property is replicated. -/
  replicationOffset : Option UInt16
  type : PropertyType
deriving DecidableEq, Repr

/-- What every field has that holds others. -/
structure StructInfo where
  scriptText : ObjectRef
  /-- The first of its fields. -/
  child : ObjectRef
  friendlyName : NameIndex
  cppText : ObjectRef
  line : Int32
  textPos : Int32
  /-- What the script takes in memory. -/
  scriptSize : Int32
  /-- Where the script begins and ends in the payload. -/
  scriptStart : Nat
  scriptEnd : Nat
deriving DecidableEq, Repr

/-- What a function has besides. -/
structure FunctionInfo where
  nativeIndex : UInt16
  precedence : UInt8
  flags : UInt32
  /-- Present if the function is replicated. -/
  replicationOffset : Option UInt16
deriving DecidableEq, Repr

/-- Whether the function is implemented outside the script. -/
def FunctionInfo.isNative (f : FunctionInfo) : Bool :=
  hasFlag f.flags FunctionFlag.native

/-- What a state has besides. -/
structure StateInfo where
  probeMask : UInt64
  ignoreMask : UInt64
  labelTableOffset : UInt16
  flags : UInt32
deriving DecidableEq, Repr

/-- A class that another one was compiled against. -/
structure Dependency where
  type : ObjectRef
  deep : Int32
  scriptTextCrc : Int32
deriving DecidableEq, Repr

/-- What a class has besides. -/
structure ClassInfo where
  flags : UInt32
  guid : Guid
  dependencies : List Dependency
  packageImports : List NameIndex
  within : ObjectRef
  configName : NameIndex
  hideCategories : List NameIndex
  /-- Where the default values begin in the payload. -/
  defaultsStart : Nat
deriving DecidableEq, Repr

/-- What a field holds, by its class. -/
inductive FieldBody
  | property (info : PropertyInfo)
  | struct (info : StructInfo)
  | function (info : StructInfo) (function : FunctionInfo)
  | state (info : StructInfo) (state : StateInfo)
  | classType (info : StructInfo) (state : StateInfo) (type : ClassInfo)
  | enum (names : List NameIndex)
  | const (text : String)
deriving DecidableEq, Repr

namespace FieldBody

/-- The class of a field with this body. -/
def fieldClass : FieldBody → FieldClass
  | property info => info.type.fieldClass
  | struct _ => .struct
  | function .. => .function
  | state .. => .state
  | classType .. => .classType
  | enum _ => .enum
  | const _ => .const

/-- What the field has as a holder of others, if it is one. -/
def structInfo? : FieldBody → Option StructInfo
  | struct s | function s _ | state s _ | classType s _ _ => some s
  | _ => none

end FieldBody

/-- A field of a script type. -/
structure FieldRecord where
  /-- Index of the export that it was read from. -/
  index : Nat
  name : String
  /-- The field that this one derives from. -/
  super : ObjectRef
  /-- The field after this one in the same struct. -/
  next : ObjectRef
  body : FieldBody
deriving DecidableEq, Repr

end UnrealPackage
