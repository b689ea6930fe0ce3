import UnrealPackage.Property.Encode
import UnrealPackage.Proofs.Tables.Names
/-!
# Well-formed property lists

What a property list has to be like for its records to mean that list. Writing never asks the
schema, and reading finds everything there again: `PropertyFits.Property` says that the schema's
first field of the property's name is its template, and that every value has the shape which the
reader takes from that template and from the record.

Lists, arrays and structs may be nested as deep as the reader goes, so `PropertyFits` is made level
by level from the one below, as `PropertyReaders` is.

A property of which no slot is set leaves no record. `PropertyValue.prune` leaves it out, at every
level.
-/

namespace UnrealPackage

/-! ## What is read back -/

mutual

/-- The value without properties of which no slot is set. -/
def PropertyValue.prune : PropertyValue → PropertyValue
  | .array elements => .array (PropertyValue.pruneElements elements)
  | .struct fields => .struct (PropertyValue.pruneFields fields)
  | v => v

def PropertyValue.pruneElements : List PropertyValue → List PropertyValue
  | [] => []
  | v :: vs => v.prune :: PropertyValue.pruneElements vs

/-- The properties of which a slot is set. -/
def PropertyValue.pruneFields : List (PropertyOf PropertyValue) → List (PropertyOf PropertyValue)
  | [] => []
  | ⟨ownName, template, values⟩ :: ps =>
    if values.any Option.isSome then
      ⟨ownName, template, PropertyValue.pruneSlots values⟩ :: PropertyValue.pruneFields ps
    else PropertyValue.pruneFields ps

def PropertyValue.pruneSlots : List (Option PropertyValue) → List (Option PropertyValue)
  | [] => []
  | none :: vs => none :: PropertyValue.pruneSlots vs
  | some v :: vs => some v.prune :: PropertyValue.pruneSlots vs

end

/-- Slots are pruned one by one. -/
theorem PropertyValue.pruneSlots_eq_map (vs : List (Option PropertyValue)) :
    PropertyValue.pruneSlots vs = vs.map (Option.map PropertyValue.prune) := by
  induction vs with
  | nil => rfl
  | cons v vs ih =>
    cases v <;> rw [PropertyValue.pruneSlots, ih, List.map_cons] <;> rfl

/-- Properties are pruned one by one. -/
theorem PropertyValue.pruneFields_cons (p : Property) (ps : List Property) :
    PropertyValue.pruneFields (p :: ps) =
      PropertyValue.pruneFields [p] ++ PropertyValue.pruneFields ps := by
  obtain ⟨ownName, template, values⟩ := p
  rw [PropertyValue.pruneFields, PropertyValue.pruneFields]
  split <;> rfl

/-- What is left of a property bears its name. -/
theorem PropertyValue.name_of_mem_pruneFields {p q : Property}
    (h : q ∈ PropertyValue.pruneFields [p]) : q.name = p.name := by
  obtain ⟨ownName, template, values⟩ := p
  rw [PropertyValue.pruneFields] at h
  split at h
  · rw [List.mem_singleton.1 h]
  · cases h

/-! ## Values -/

/-- What a property list of an owner, and an array element of a kind, have to be like. -/
structure PropertyFits where
  list : String → List Property → Prop
  element : PropertyKind → PropertyValue → Prop

namespace PropertyFits

/-- Whether a struct is stored as the value is: in plain numbers if its name is spelled like that of
a plain struct, and as a property list otherwise. -/
inductive Struct (below : PropertyFits) (structName spelled : String) : PropertyValue → Prop
  | vector {x y z : Single} (hplain : PlainStruct.ofName? spelled = some .vector) :
    Struct below structName spelled (.vector x y z)
  | rotator {pitch yaw roll : Int32} (hplain : PlainStruct.ofName? spelled = some .rotator) :
    Struct below structName spelled (.rotator pitch yaw roll)
  | color {b g r a : UInt8} (hplain : PlainStruct.ofName? spelled = some .color) :
    Struct below structName spelled (.color b g r a)
  | list {fields : List UnrealPackage.Property} (hplain : PlainStruct.ofName? spelled = none)
    (hfields : below.list structName fields) : Struct below structName spelled (.struct fields)

/-- Whether the value is one of the kind. `told structName spelled` says by which spelling the
reader knows a struct. -/
inductive Value (below : PropertyFits) (told : String → String → Prop) :
    PropertyKind → PropertyValue → Prop
  | byte (b : UInt8) : Value below told .byte (.byte b)
  | int (n : Int32) : Value below told .int (.int n)
  | bool (b : Bool) : Value below told .bool (.bool b)
  | float (x : Single) : Value below told .float (.float x)
  | object (className : String) (r : ObjectRef) : Value below told (.object className) (.object r)
  | classRef (r : ObjectRef) : Value below told .classRef (.object r)
  | name (n : NameIndex) : Value below told .name (.name n)
  | str (s : String) : Value below told .str (.str s)
  | array {innerName : String} {inner : PropertyKind} {innerSlots : UInt32}
    {elements : List PropertyValue} (helements : ∀ v ∈ elements, below.element inner v) :
    Value below told (.array innerName inner innerSlots) (.array elements)
  | struct {structName spelled : String} {v : PropertyValue} (htold : told structName spelled)
    (hv : below.Struct structName spelled v) : Value below told (.struct structName) v

/-- Whether the property is one of the fields of `scope`, its values fit their kind, and its records
can be stored. A record tells the name of a struct as the name table spells it. -/
structure Property (ctx : PropertyContext) (below : PropertyFits) (scope : String)
    (p : UnrealPackage.Property) : Prop where
  name_eq : p.name = p.template.name
  slots : p.values.length = p.template.slotCount
  field : ∃ fields, ctx.schema scope = .ok fields ∧
    fields.find? (fun f => sameName f.name p.name) = some p.template
  ne_none : sameName p.name noneName = false
  named : ∃ spelled, ctx.tables.Spells p.name spelled
  kind : p.template.kind ≠ .delegate ∧ p.template.kind ≠ .pointer
  value : ∀ slot v, p.get? slot = some v →
    slot < 0x80000000 ∧ (p.template.kind = .bool → slot = 0) ∧
    below.Value (fun s => ctx.tables.Spells (shortName s)) p.template.kind v ∧
    ∀ payload, v.encode ctx.tables ctx.charset p.template.kind = .ok payload →
      payload.length < 0x80000000

/-- Whether the properties are fields of `scope`, all of different names. -/
structure Properties (ctx : PropertyContext) (below : PropertyFits) (scope : String)
    (ps : List UnrealPackage.Property) : Prop where
  each : ∀ p ∈ ps, below.Property ctx scope p
  distinct : ps.Pairwise fun p q => sameName p.name q.name = false
  noneNamed : ∃ spelled, ctx.tables.Spells noneName spelled

/-- What may be nested when `levels` are left. An array element of a struct is known by the struct's
own name. -/
def ofLevels (ctx : PropertyContext) : Nat → PropertyFits
  | 0 => { list := fun _ _ => False, element := fun _ _ => False }
  | levels + 1 => {
    list := Properties ctx (ofLevels ctx levels)
    element := (ofLevels ctx levels).Value fun structName spelled =>
      spelled = shortName structName }

end PropertyFits

/-- Whether the list is one of an object whose class, or of a struct whose own full name, is
`scope`. -/
def WellFormedProperties (ctx : PropertyContext) (scope : String) (ps : List Property) : Prop :=
  (PropertyFits.ofLevels ctx (propertyNestingLimit + 1)).list scope ps

end UnrealPackage
