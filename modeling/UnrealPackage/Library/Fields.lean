import UnrealPackage.Library.Basic
/-!
# Fields of script types

The fields of a struct are listed from the root of its supers down, and at each level in the order
of the chain that begins with the level's first field.

To read a field, the property list in its payload has to be read, and that takes the fields of the
class of the field, which are fields again. `fieldsWithin` counts how deep this goes. A definition
that is reached in as many steps as there are exports has been met before, so it needs itself.
-/

namespace UnrealPackage

/-- The most levels of supers that are followed. -/
def Library.superLimit : Nat := 256

namespace Access

variable {m : Type → Type} [Monad m] [MonadLiftT (Except Error) m] (a : Access m)

/-- The supers of a struct from the root down, itself last; at most `room` of them. -/
def superChain : Nat → Located → m (List (Located × FieldRecord))
  | 0, x => do
    let name ← a.fullName x
    Error.raise (.superChainLoops name)
  | room + 1, x => do
    let r ← a.record x
    match ← a.resolve x r.super with
    | none => pure [(x, r)]
    | some parent =>
      let supers ← superChain room parent
      pure (supers ++ [(x, r)])

/-- The template of a property. The elements of arrays are followed `depth` levels down. -/
def template : Nat → Located → FieldRecord → m FieldTemplate
  | 0, _, r => Error.raise (.circularDefinition r.name)
  | depth + 1, x, r => do
    match r.body with
    | .property info =>
      let kind ← match info.type with
        | .byte _ => pure .byte
        | .int => pure .int
        | .bool => pure .bool
        | .float => pure .float
        | .object objectType => .object <$> a.objectFullName x objectType
        | .classRef .. => pure .classRef
        | .name => pure .name
        | .str | .string => pure .str
        | .array inner =>
          match ← a.resolve x inner with
          | none => Error.raise (.arrayWithoutInner r.name)
          | some y =>
            let element ← template depth y (← a.record y)
            pure (.array element.name element.kind element.arrayDim)
        | .struct structType => .struct <$> a.objectFullName x structType
        | .delegate _ => pure .delegate
        | .map .. => pure .map
        | .fixedArray .. => pure .fixedArray
        | .pointer => pure .pointer
      pure { name := r.name, kind, arrayDim := max info.arrayDim.toUInt32 1 }
    | _ => Error.raise (.notProperty r.name)

/-- The templates of the properties in a chain of fields, which is at most `room` long. The elements
of arrays are followed `depth` levels down. -/
def fieldList (depth : Nat) (fullName : String) :
    Nat → Option Located → m (List FieldTemplate)
  | _, none => pure []
  | 0, some _ => Error.raise (.fieldListLoops fullName)
  | room + 1, some x => do
    let r ← a.record x
    let own ←
      if r.body.fieldClass.isProperty then (fun t => [t]) <$> a.template depth x r
      else pure []
    let next ← a.resolve x r.next
    let rest ← fieldList depth fullName room next
    pure (own ++ rest)

/-- The templates of the properties that one level of supers adds. -/
def ownFields (depth : Nat) (fullName : String) (x : Located) (r : FieldRecord) :
    m (List FieldTemplate) := do
  match r.body.structInfo? with
  | none => Error.raise (.notStruct r.name)
  | some info =>
    let child ← a.resolve x info.child
    a.fieldList depth fullName x.package.tables.exports.length child

/-- The fields of a struct, those of its supers first. -/
def flatten (depth : Nat) (fullName : String) : m (List FieldTemplate) := do
  let x ← a.locate fullName
  let chain ← a.superChain (Library.superLimit + 1) x
  let levels ← chain.mapM fun (x, r) => a.ownFields depth fullName x r
  pure levels.flatten

end Access

namespace Library

/-- The fields of a struct, those of its supers first, if `record` gives the fields that exports
are. -/
def flatten (l : Library) (record : Located → Except Error FieldRecord) : SchemaResolver :=
  (l.access record).flatten (l.source.exportCount + 1)

/-- The fields of structs, found by reading definitions at most `depth` deep. -/
def fieldsWithin (l : Library) : Nat → SchemaResolver
  | 0 => fun fullName => throw (.circularDefinition fullName)
  | depth + 1 => l.flatten (Located.decode (fieldsWithin l depth))

/-- The fields of a struct by its full name, those of its supers first. -/
def fields (l : Library) : SchemaResolver :=
  l.fieldsWithin (l.source.exportCount + 1)

/-- The field that an export is. -/
def recordAt (l : Library) : Located → Except Error FieldRecord :=
  Located.decode (l.fieldsWithin l.source.exportCount)

end Library

end UnrealPackage
