import UnrealPackage.Property.Decode
import UnrealPackage.Text.Dotted
/-!
# Declared schemas

A schema declares the fields of structs by the structs' full names, which are found in any case. The
fields of a struct are those of its super and then its own.

A chain of supers longer than the number of declared structs must pass one of them twice;
`Schema.superChain` stops there.
-/

namespace UnrealPackage

/-- A struct with the fields that it adds to those of its super. -/
structure StructSchema where
  super : Option String
  fields : List FieldTemplate
deriving DecidableEq, Repr

/-- Structs by their names in lower case. -/
structure Schema where
  structs : List (String × StructSchema)
deriving DecidableEq, Repr

namespace Schema

/-- The schema that declares nothing. -/
def empty : Schema := ⟨[]⟩

/-- The schema with a struct declared in place of the one of that name. -/
def insert (s : Schema) (name : String) (declared : StructSchema) : Schema :=
  let key := foldCase name
  ⟨s.structs.filter (·.1 != key) ++ [(key, declared)]⟩

/-- The declaration of a struct. -/
def find (s : Schema) (name : String) : Except Error StructSchema :=
  match s.structs.lookup (foldCase name) with
  | some declared => pure declared
  | none => throw (.objectNotFound name)

/-- The supers of `start` from the root down to `current`; `room` more may follow before they count
as a ring. -/
def superChain (s : Schema) (start : String) :
    Nat → Option String → Except Error (List StructSchema)
  | _, none => pure []
  | 0, some name => do
    let _ ← s.find name
    throw (.superChainLoops start)
  | room + 1, some name => do
    let declared ← s.find name
    let supers ← superChain s start room declared.super
    pure (supers ++ [declared])

/-- The fields of a struct, those of its supers first. -/
def fields (s : Schema) : SchemaResolver := fun name => do
  let chain ← s.superChain name (s.structs.length + 1) (some name)
  pure (chain.flatMap StructSchema.fields)

end Schema

end UnrealPackage
