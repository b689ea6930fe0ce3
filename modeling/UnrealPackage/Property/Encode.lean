import UnrealPackage.Property.Decode
/-!
# Writing property lists

Every slot that is set becomes a record, and the name `None` ends the list. The names of properties
and structs have to be in the name table. A value that does not fit the kind of its property is
refused.
-/

namespace UnrealPackage

namespace Encode

/-- The code of a payload size: its place among the fixed sizes, or how many bytes tell it. -/
def sizeCode (size : Nat) : Nat :=
  match fixedSizes.findIdx? (· == size) with
  | some i => i
  | none => if size ≤ 0xFF then 5 else if size ≤ 0xFFFF then 6 else 7

/-- The bytes that tell a payload size behind its code. -/
def payloadSize (size : Nat) : List UInt8 :=
  match sizeCode size with
  | 5 => [size.toUInt8]
  | 6 => u16 size.toUInt16
  | 7 => i32 (Int32.ofNat size)
  | _ => []

/-- The flag of a record: the value of a boolean, else whether a slot follows. -/
def recordFlag (tag : PropertyTag) (slot : Nat) (value : PropertyValue) : Bool :=
  match tag, value with
  | .bool, .bool b => b
  | _, _ => 0 < slot

/-- The name of the struct in a record for a field of kind `kind`, if it tells one. -/
def structNameIndex (t : Tables) : PropertyKind → Except Error (List UInt8)
  | .struct structName => compact <$> t.nameIndex (shortName structName)
  | _ => pure []

/-- The slot of a record, if it does not go without saying. -/
def recordSlot (tag : PropertyTag) (slot : Nat) : List UInt8 :=
  if tag ≠ .bool ∧ 0 < slot then compact (Int32.ofNat slot) else []

/-- A record for one slot, its payload already written. -/
def propertyRecord (t : Tables) (name : NameIndex) (tag : PropertyTag) (kind : PropertyKind)
    (slot : Nat) (value : PropertyValue) (payload : List UInt8) : Except Error (List UInt8) := do
  let flag := if recordFlag tag slot value then 128 else 0
  let info := (flag + 16 * sizeCode payload.length + tag.code.toNat).toUInt8
  let structName ← structNameIndex t kind
  pure (compact name ++ [info] ++ structName ++ payloadSize payload.length ++
    recordSlot tag slot ++ payload)

/-- The name that ends a list. -/
def propertyListEnd (t : Tables) : Except Error (List UInt8) :=
  compact <$> t.nameIndex noneName

end Encode

/-- Refuses a value for a field of another kind, or of a kind that has no stored values. -/
def PropertyKind.refuse (kind : PropertyKind) (value : PropertyValue) :
    Except Error (List UInt8) :=
  match kind with
  | .map => throw (.unknownPropertyType PropertyTag.map.code)
  | .fixedArray => throw (.unknownPropertyType PropertyTag.fixedArray.code)
  | _ => throw (.valueMismatch value.label kind.label)

mutual

/-- The payload of a value for a field of kind `kind`. -/
def PropertyValue.encode (t : Tables) (cs : Charset) (kind : PropertyKind) :
    PropertyValue → Except Error (List UInt8)
  | .byte v => match kind with
    | .byte => pure [v]
    | _ => kind.refuse (.byte v)
  | .int v => match kind with
    | .int => pure (Encode.i32 v)
    | _ => kind.refuse (.int v)
  | .bool v => match kind with
    | .bool => pure []
    | _ => kind.refuse (.bool v)
  | .float v => match kind with
    | .float => pure (Encode.single v)
    | _ => kind.refuse (.float v)
  | .object r => match kind with
    | .object _ | .classRef => pure (Encode.compactRef r)
    | _ => kind.refuse (.object r)
  | .name n => match kind with
    | .name => pure (Encode.compact n)
    | _ => kind.refuse (.name n)
  | .str s => match kind with
    | .str => pure (Encode.text cs s)
    | _ => kind.refuse (.str s)
  | .array elements => match kind with
    | .array _ inner _ => do
      let stored ← PropertyValue.encodeElements t cs inner elements
      pure (Encode.compact (Int32.ofNat elements.length) ++ stored)
    | _ => kind.refuse (.array elements)
  | .vector x y z => match kind with
    | .struct _ => pure (Encode.single x ++ Encode.single y ++ Encode.single z)
    | _ => kind.refuse (.vector x y z)
  | .rotator pitch yaw roll => match kind with
    | .struct _ => pure (Encode.i32 pitch ++ Encode.i32 yaw ++ Encode.i32 roll)
    | _ => kind.refuse (.rotator pitch yaw roll)
  | .color b g r a => match kind with
    | .struct _ => pure [b, g, r, a]
    | _ => kind.refuse (.color b g r a)
  | .struct fields => match kind with
    | .struct _ => do
      let records ← PropertyValue.encodeFields t cs fields
      let ending ← Encode.propertyListEnd t
      pure (records ++ ending)
    | _ => kind.refuse (.struct fields)

/-- Array elements of kind `kind` in a row. A boolean takes a byte here. -/
def PropertyValue.encodeElements (t : Tables) (cs : Charset) (kind : PropertyKind) :
    List PropertyValue → Except Error (List UInt8)
  | [] => pure []
  | v :: vs => do
    let first ← match kind, v with
      | .bool, .bool b => pure [if b then 1 else 0]
      | _, _ => v.encode t cs kind
    let rest ← PropertyValue.encodeElements t cs kind vs
    pure (first ++ rest)

/-- The records of properties in a row, without the end of the list. -/
def PropertyValue.encodeFields (t : Tables) (cs : Charset) :
    List (PropertyOf PropertyValue) → Except Error (List UInt8)
  | [] => pure []
  | ⟨ownName, template, values⟩ :: ps => do
    let tag ← PropertyTag.ofKind template.kind
    let index ← t.nameIndex ownName
    let records ← PropertyValue.encodeSlots t cs index tag template.kind 0 values
    let rest ← PropertyValue.encodeFields t cs ps
    pure (records ++ rest)

/-- The records of the slots from `slot` on. -/
def PropertyValue.encodeSlots (t : Tables) (cs : Charset) (name : NameIndex) (tag : PropertyTag)
    (kind : PropertyKind) (slot : Nat) : List (Option PropertyValue) → Except Error (List UInt8)
  | [] => pure []
  | none :: vs => PropertyValue.encodeSlots t cs name tag kind (slot + 1) vs
  | some v :: vs => do
    let payload ← v.encode t cs kind
    let record ← Encode.propertyRecord t name tag kind slot v payload
    let rest ← PropertyValue.encodeSlots t cs name tag kind (slot + 1) vs
    pure (record ++ rest)

end

/-- A property list with its end. -/
def writeProperties (t : Tables) (cs : Charset) (properties : List Property) :
    Except Error (List UInt8) := do
  let records ← PropertyValue.encodeFields t cs properties
  let ending ← Encode.propertyListEnd t
  pure (records ++ ending)

end UnrealPackage
