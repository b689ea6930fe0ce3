import UnrealPackage.Binary.Text
import UnrealPackage.Property.Value
import UnrealPackage.Tables.Basic
/-!
# Reading property lists

A property list is a row of records that ends with the name `None`. A record tells the name of its
property, the type and size of its payload, and the slot that the payload goes to; a boolean record
has no payload to speak of, its value is the flag that elsewhere announces a slot. The elements of
an array carry no type, they are read by the template of the array.

The fields of the owner are asked for only when a record names a property for the first time, so an
empty list needs no schema. `PropertyReaders` bounds how deep lists and arrays may be nested: each
level is made from the one below.
-/

namespace UnrealPackage

/-- The deepest nesting of lists and arrays that is read. -/
def propertyNestingLimit : Nat := 64

/-- Gives the fields of a struct by its full name, those of its supers first. -/
abbrev SchemaResolver := String → Except Error (List FieldTemplate)

/-- What a property list has to be read and written against. -/
structure PropertyContext where
  tables : Tables
  schema : SchemaResolver
  charset : Charset

/-- A record of a property list, its payload not yet interpreted. -/
structure PropertyRecord where
  name : String
  tag : PropertyTag
  /-- The flag that announces a slot, and is the value of a boolean. -/
  flag : Bool
  /-- The name of the struct, in a record of that type. -/
  structName : Option String
  slot : Int
  payload : List UInt8
deriving DecidableEq, Repr

/-- The payload sizes that have a code of their own. -/
def fixedSizes : List Nat := [1, 2, 4, 12, 16]

namespace Decode

/-- The size of a payload, by its code in the info byte. -/
def payloadSize (sizeCode : Nat) : Decode Nat :=
  match fixedSizes[sizeCode]? with
  | some size => pure size
  | none =>
    if sizeCode = 5 then UInt8.toNat <$> u8
    else if sizeCode = 6 then UInt16.toNat <$> u16
    else (·.toInt.toNat) <$> i32

/-- The name of the struct in a record of type `tag`, if it tells one. -/
def structName (t : Tables) (tag : PropertyTag) : Decode (Option String) :=
  if tag = .struct then do
    let index ← compact
    some <$> liftM (t.name index)
  else pure none

/-- The slot of a record of type `tag`, which only a flag announces. -/
def recordSlot (tag : PropertyTag) (flag : Bool) : Decode Int :=
  if flag && tag != .bool then Int32.toInt <$> compact else pure 0

/-- The next record, or nothing at the end of the list. -/
def propertyRecord (t : Tables) : Decode (Option PropertyRecord) := do
  let name ← liftM (t.name (← compact))
  if sameName name noneName then return none
  let info ← u8
  let tag := PropertyTag.ofCode info
  let flag := decide (128 ≤ info.toNat)
  let structName ← structName t tag
  let size ← payloadSize (info.toNat / 16 % 8)
  let slot ← recordSlot tag flag
  let payload ← bytes size
  return some { name, tag, flag, structName, slot, payload }

/-- A struct that is stored as plain numbers. -/
def plainStruct : PlainStruct → Decode PropertyValue
  | .vector => do
    let x ← single
    let y ← single
    let z ← single
    pure (.vector x y z)
  | .rotator => do
    let pitch ← i32
    let yaw ← i32
    let roll ← i32
    pure (.rotator pitch yaw roll)
  | .color => do
    let b ← u8
    let g ← u8
    let r ← u8
    let a ← u8
    pure (.color b g r a)

end Decode

/-- The readers of what may be nested: property lists by the full name of their owner, and array
elements by their kind. -/
structure PropertyReaders where
  list : String → Decode (List Property)
  element : PropertyKind → Decode PropertyValue

namespace PropertyReaders

/-- The elements of an array, their number in front. -/
def elements (below : PropertyReaders) (inner : PropertyKind) : Decode PropertyValue := do
  let count ← Decode.compact
  .array <$> Decode.counted (below.element inner) count

/-- An array element. -/
def readElement (cs : Charset) (below : PropertyReaders) : PropertyKind → Decode PropertyValue
  | .byte => .byte <$> Decode.u8
  | .int => .int <$> Decode.i32
  | .bool => (fun b => .bool (b != 0)) <$> Decode.u8
  | .float => .float <$> Decode.single
  | .object _ => .object <$> Decode.compactRef
  | .classRef => .object <$> Decode.compactRef
  | .name => .name <$> Decode.compact
  | .str => .str <$> Decode.text cs
  | .array _ inner _ => below.elements inner
  | .struct structName =>
    match PlainStruct.ofName? (shortName structName) with
    | some plain => Decode.plainStruct plain
    | none => .struct <$> below.list structName
  | kind => do
    let tag ← liftM (PropertyTag.ofKind kind)
    throw (.unknownPropertyType tag.code)

/-- The payload of a record for a field of kind `kind`; `mismatch` if they do not belong
together. -/
def readPayload (cs : Charset) (below : PropertyReaders) (r : PropertyRecord)
    (kind : PropertyKind) (mismatch : Error) : Decode PropertyValue :=
  match r.tag with
  | .byte => .byte <$> Decode.u8
  | .int => .int <$> Decode.i32
  | .bool => pure (.bool r.flag)
  | .float => .float <$> Decode.single
  | .object | .classRef => .object <$> Decode.compactRef
  | .name => .name <$> Decode.compact
  | .str => .str <$> Decode.text cs
  | .array => match kind with
    | .array _ inner _ => below.elements inner
    | _ => throw mismatch
  | .struct =>
    match PlainStruct.ofName? (r.structName.getD "") with
    | some plain => Decode.plainStruct plain
    | none => match kind with
      | .struct structName => .struct <$> below.list structName
      | _ => throw mismatch
  | tag => throw (.unknownPropertyType tag.code)

/-- The place of a property among those read so far, which a first record adds to them. -/
def place (schema : SchemaResolver) (scope name : String) (done : List Property) :
    Except Error (Nat × List Property) := do
  match done.findIdx? (fun p => sameName p.name name) with
  | some i => pure (i, done)
  | none =>
    match (← schema scope).find? (fun f => sameName f.name name) with
    | some template => pure (done.length, done ++ [Property.empty template])
    | none => throw (.noTemplate name scope)

/-- A property with the value of one more record. -/
def fill (cs : Charset) (below : PropertyReaders) (scope : String) (r : PropertyRecord)
    (p : Property) : Except Error Property := do
  let mismatch := Error.noTemplate p.template.name scope
  let expected ← PropertyTag.ofKind p.template.kind
  if !r.tag.accepts expected then throw mismatch
  if r.slot < 0 ∨ p.values.length ≤ r.slot then
    throw (.outOfRange .slots r.slot p.values.length)
  let (value, _) ← readPayload cs below r p.template.kind mismatch r.payload
  p.set r.slot.toNat value

/-- The properties read so far with those of one more record. -/
def store (ctx : PropertyContext) (below : PropertyReaders) (scope : String)
    (done : List Property) (r : PropertyRecord) : Except Error (List Property) := do
  let (i, done) ← place ctx.schema scope r.name done
  match done[i]? with
  | some p =>
    let p ← fill ctx.charset below scope r p
    pure (done.set i p)
  | none => pure done

/-- Records up to the end of the list. -/
def readRecords (ctx : PropertyContext) (below : PropertyReaders) (scope : String) :
    Nat → List Property → Decode (List Property)
  | 0, _ => throw .truncated
  | bound + 1, done => do
    match ← Decode.propertyRecord ctx.tables with
    | none => pure done
    | some r =>
      let done ← liftM (store ctx below scope done r)
      readRecords ctx below scope bound done

/-- The readers that follow `levels` of nesting. -/
def ofLevels (ctx : PropertyContext) : Nat → PropertyReaders
  | 0 => {
    list := fun scope => throw (.propertiesTooDeep scope)
    element := fun _ => throw .elementsTooDeep }
  | levels + 1 => {
    list := fun scope => do
      readRecords ctx (ofLevels ctx levels) scope ((← get).length + 1) []
    element := readElement ctx.charset (ofLevels ctx levels) }

end PropertyReaders

/-- The property list of an object whose class, or of a struct whose own full name, is `scope`. -/
def readProperties (ctx : PropertyContext) (scope : String) : Decode (List Property) :=
  (PropertyReaders.ofLevels ctx (propertyNestingLimit + 1)).list scope

end UnrealPackage
