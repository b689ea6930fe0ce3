import UnrealPackage.Decimal.Layout
import UnrealPackage.Json.Basic
import UnrealPackage.Property.Value
/-!
# Templates and properties in JSON

How kinds, templates, values and properties are written as JSON: tagged by `type`, with the members
in a fixed order.
-/

namespace UnrealPackage

namespace Json

/-- Floating-point numbers in JSON: in full from a millionth up to thirteen digits before the
point, otherwise with a signed exponent. What is no finite number becomes `null`. -/
def floatLayout : FloatLayout where
  tie := .toEven
  fullFrom := -6
  fullTo := 12
  plusSign := true
  notANumber := "null"
  infinity := "null"
  negativeInfinity := "null"

/-- A floating-point number. -/
def float (x : Single) : Json := number (x.show floatLayout)

/-- A value tagged by its type. -/
def tagged (type : String) (members : List (String × Json)) : Json :=
  object (("type", string type) :: members)

end Json

/-- The kind of a field. -/
def PropertyKind.toJson : PropertyKind → Json
  | object className => Json.tagged "Object" [("class", .string className)]
  | array innerName inner innerSlots => Json.tagged "Array" [("inner", .object [
      ("name", .string innerName), ("kind", inner.toJson), ("array_dim", .nat innerSlots.toNat)])]
  | struct structName => Json.tagged "Struct" [("struct_name", .string structName)]
  | kind => Json.tagged kind.label []

/-- The description of a field. -/
def FieldTemplate.toJson (t : FieldTemplate) : Json :=
  .object [("name", .string t.name), ("kind", t.kind.toJson), ("array_dim", .nat t.arrayDim.toNat)]

mutual

/-- A value with the name of its type. -/
def PropertyValue.toJson (v : PropertyValue) : Json :=
  Json.tagged v.label [("value", v.content)]

/-- A value without the name of its type. -/
def PropertyValue.content : PropertyValue → Json
  | .byte v => .nat v.toNat
  | .int v => .int v.toInt
  | .bool v => .bool v
  | .float v => .float v
  | .object r => .int r.value.toInt
  | .name n => .int n.toInt
  | .str s => .string s
  | .array elements => .array (PropertyValue.elementsToJson elements)
  | .vector x y z => .object [("x", .float x), ("y", .float y), ("z", .float z)]
  | .rotator pitch yaw roll => .object [
      ("pitch", .int pitch.toInt), ("yaw", .int yaw.toInt), ("roll", .int roll.toInt)]
  | .color b g r a => .object [
      ("b", .nat b.toNat), ("g", .nat g.toNat), ("r", .nat r.toNat), ("a", .nat a.toNat)]
  | .struct fields => .array (PropertyValue.fieldsToJson fields)

/-- Array elements. -/
def PropertyValue.elementsToJson : List PropertyValue → List Json
  | [] => []
  | v :: vs => .object [("type", .string v.label), ("value", v.content)] ::
      PropertyValue.elementsToJson vs

/-- Properties in a row. -/
def PropertyValue.fieldsToJson : List (PropertyOf PropertyValue) → List Json
  | [] => []
  | ⟨ownName, template, values⟩ :: ps =>
    .object [("name", .string ownName), ("template", template.toJson),
      ("values", .array (PropertyValue.slotsToJson values))] :: PropertyValue.fieldsToJson ps

/-- The slots of a property, `null` where no value is set. -/
def PropertyValue.slotsToJson : List (Option PropertyValue) → List Json
  | [] => []
  | none :: vs => .null :: PropertyValue.slotsToJson vs
  | some v :: vs => .object [("type", .string v.label), ("value", v.content)] ::
      PropertyValue.slotsToJson vs

end

/-- A property list. -/
def propertiesToJson (properties : List Property) : Json :=
  .array (PropertyValue.fieldsToJson properties)

end UnrealPackage
