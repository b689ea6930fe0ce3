import UnrealPackage.Decimal.Shortest
import UnrealPackage.Property.Kind
import UnrealPackage.Tables.Entry
/-!
# Properties and their values

A property has a name, the template of its field, and one place for a value in each slot.
-/

namespace UnrealPackage

/-- A named property with values of type `α` in its slots. -/
structure PropertyOf (α : Type) where
  name : String
  template : FieldTemplate
  /-- A value for each slot that is set. -/
  values : List (Option α)
deriving Repr, Inhabited

/-- The value of a property. -/
inductive PropertyValue
  | byte (value : UInt8)
  | int (value : Int32)
  | bool (value : Bool)
  | float (value : Single)
  | object (reference : ObjectRef)
  | name (index : NameIndex)
  | str (text : String)
  | array (elements : List PropertyValue)
  | vector (x y z : Single)
  | rotator (pitch yaw roll : Int32)
  | color (b g r a : UInt8)
  | struct (fields : List (PropertyOf PropertyValue))

instance : Inhabited PropertyValue := ⟨.byte 0⟩

/-- A named property with its values. -/
abbrev Property := PropertyOf PropertyValue

/-- The word for the kind of a value. -/
def PropertyValue.label : PropertyValue → String
  | byte _ => "Byte"
  | int _ => "Int"
  | bool _ => "Bool"
  | float _ => "Float"
  | object _ => "Object"
  | name _ => "Name"
  | str _ => "Str"
  | array _ => "Array"
  | vector .. => "Vector"
  | rotator .. => "Rotator"
  | color .. => "Color"
  | struct _ => "Struct"

namespace Property

/-- The property of a field with no slot set. -/
def empty (template : FieldTemplate) : Property :=
  { name := template.name, template, values := List.replicate template.slotCount none }

/-- The property of a field with its first slot set. -/
def withValue (template : FieldTemplate) (value : PropertyValue) : Property :=
  { empty template with values := (empty template).values.set 0 (some value) }

/-- The value in a slot, if the slot exists and is set. -/
def get? (p : Property) (slot : Nat) : Option PropertyValue :=
  p.values[slot]?.join

/-- The property with a slot set. -/
def set (p : Property) (slot : Nat) (value : PropertyValue) : Except Error Property :=
  if slot < p.values.length then pure { p with values := p.values.set slot (some value) }
  else throw (.outOfRange .slots slot p.values.length)

end Property

end UnrealPackage
