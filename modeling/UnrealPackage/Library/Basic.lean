import UnrealPackage.Field.Decode
import UnrealPackage.Library.Source
/-!
# Libraries of script packages

A library finds objects by their full names, whose first segment names a package, and follows
references across packages: an import leads to the export of that full name in the package that
holds it.

What is asked of a library is defined over an `Access`, which gives the answers to the questions
that make it up in any monad: a library by itself has one (`Library.access`), and so has one that
remembers what it found.
-/

namespace UnrealPackage

/-- Script packages, with the names of those that declare native functions. -/
structure Library where
  source : PackageSource
  nativePackages : List String := ["Core", "Engine"]

/-- An export in a package; the index may lie outside its table. -/
structure Located where
  package : Package
  index : Nat

namespace Located

/-- The full name of the export. -/
def fullName (x : Located) : Except Error String :=
  x.package.tables.exportFullName x.index

/-- The payload of the export. -/
def payload (x : Located) : Except Error (List UInt8) :=
  x.package.exportData x.index

/-- What property lists in the package are read against. -/
def propertyContext (x : Located) (schema : SchemaResolver) : PropertyContext :=
  ⟨x.package.tables, schema, x.package.options.charset⟩

/-- The field that the export is, with the fields of structs given by `schema`. -/
def decode (schema : SchemaResolver) (x : Located) : Except Error FieldRecord := do
  let data ← x.payload
  decodeField (x.propertyContext schema) x.package.options.format x.index data

end Located

namespace Library

/-- The package of a name. -/
def package (l : Library) (name : String) : Except Error Package := do
  match ← l.source.find name with
  | some p => pure p
  | none => throw (.objectNotFound ("package " ++ name))

/-- The export of a full name. -/
def locate (l : Library) (fullName : String) : Except Error Located := do
  let package ← l.package (firstSegment fullName)
  match package.tables.findExport? fullName with
  | some index => pure { package, index }
  | none => throw (.objectNotFound fullName)

/-- The export that a reference in the package of `x` leads to, if it leads to one at all. -/
def resolve (l : Library) (x : Located) (r : ObjectRef) : Except Error (Option Located) := do
  match r.target with
  | .nothing => pure none
  | .exported index => pure (some { package := x.package, index })
  | .imported index =>
    let fullName ← x.package.tables.importFullName index
    some <$> l.locate fullName

end Library

/-- Gives up, in any monad in which that is possible. -/
def Error.raise {m : Type → Type} [MonadLiftT (Except Error) m] {α : Type} (e : Error) : m α :=
  liftM (throw e : Except Error α)

/-- How the objects of a library are found and read. -/
structure Access (m : Type → Type) where
  /-- The export of a full name. -/
  locate : String → m Located
  /-- The export that a reference leads to, if it leads to one at all. -/
  resolve : Located → ObjectRef → m (Option Located)
  /-- The full name of an export. -/
  fullName : Located → m String
  /-- The full name of the object that a reference leads to. -/
  objectFullName : Located → ObjectRef → m String
  /-- The field that an export is. -/
  record : Located → m FieldRecord

/-- The access to a library whose fields `record` gives. -/
def Library.access (l : Library) (record : Located → Except Error FieldRecord) :
    Access (Except Error) where
  locate := l.locate
  resolve := l.resolve
  fullName := Located.fullName
  objectFullName x := x.package.tables.objectFullName
  record := record

namespace Library

variable {l : Library} {record : Located → Except Error FieldRecord} {x : Located} {r : ObjectRef}

@[simp] theorem access_locate {fullName : String} :
    (l.access record).locate fullName = l.locate fullName := rfl

@[simp] theorem access_resolve : (l.access record).resolve x r = l.resolve x r := rfl

@[simp] theorem access_fullName : (l.access record).fullName x = x.fullName := rfl

@[simp] theorem access_objectFullName :
    (l.access record).objectFullName x r = x.package.tables.objectFullName r := rfl

@[simp] theorem access_record : (l.access record).record x = record x := rfl

end Library

end UnrealPackage
