import UnrealPackage.Tables.Entry
import UnrealPackage.Text.Dotted
/-!
# Tables

The three tables of a package, with the package's own name, and what can be asked of them without
following owners: entries by index, names by text, classes of objects.

The word `None` stands for the absence of an object wherever a name is wanted.
-/

namespace UnrealPackage

/-- The name that ends lists and stands for no object. -/
def noneName : String := "None"

/-- The name, import and export tables of one package. -/
structure Tables where
  /-- Name of the package itself. -/
  package : String
  names : List NameEntry
  imports : List ImportEntry
  exports : List ExportEntry
deriving DecidableEq, Repr

/-- A table entry with its index. -/
inductive TableEntry
  | exported (index : Nat) (entry : ExportEntry)
  | imported (index : Nat) (entry : ImportEntry)
deriving DecidableEq, Repr

namespace TableEntry

/-- The reference that leads to the entry. -/
def reference : TableEntry → ObjectRef
  | exported i _ => .ofExport i
  | imported i _ => .ofImport i

/-- The name of the object. -/
def objectName : TableEntry → NameIndex
  | exported _ e => e.objectName
  | imported _ e => e.objectName

/-- The owner of the object. -/
def outer : TableEntry → ObjectRef
  | exported _ e => e.outer
  | imported _ e => e.outer

end TableEntry

namespace Tables

/-- The name at an index. -/
def name (t : Tables) (index : NameIndex) : Except Error String :=
  let found := if 0 ≤ index.toInt then t.names[index.toInt.toNat]? else none
  match found with
  | some e => pure e.name
  | none => throw (.outOfRange .names index.toInt t.names.length)

/-- The index of the first entry that bears a name. -/
def nameIndex? (t : Tables) (name : String) : Option Nat :=
  t.names.findIdx? fun e => sameName e.name name

/-- The index of a name that has to be there. -/
def nameIndex (t : Tables) (name : String) : Except Error NameIndex :=
  match t.nameIndex? name with
  | some i => pure (Int32.ofNat i)
  | none => throw (.nameNotFound name)

/-- The export at an index. -/
def exportAt (t : Tables) (index : Nat) : Except Error ExportEntry :=
  match t.exports[index]? with
  | some e => pure e
  | none => throw (.outOfRange .exports index t.exports.length)

/-- The import at an index. -/
def importAt (t : Tables) (index : Nat) : Except Error ImportEntry :=
  match t.imports[index]? with
  | some e => pure e
  | none => throw (.outOfRange .imports index t.imports.length)

/-- The entry that a reference leads to, if it leads to one at all. -/
def object (t : Tables) (r : ObjectRef) : Except Error (Option TableEntry) :=
  match r.target with
  | .nothing => pure none
  | .exported i => do
    let e ← t.exportAt i
    pure (some (.exported i e))
  | .imported i => do
    let e ← t.importAt i
    pure (some (.imported i e))

/-- The short name of an object. -/
def objectName (t : Tables) (r : ObjectRef) : Except Error String := do
  match ← t.object r with
  | none => pure noneName
  | some e => t.name e.objectName

/-- The class of an import, named by its package and its own name. -/
def importClassFullName (t : Tables) (index : Nat) : Except Error String := do
  let e ← t.importAt index
  let package ← t.name e.classPackage
  let name ← t.name e.className
  pure (dotted [package, name])

/-- The short name of an object's class. An export without a class is a class itself. -/
def objectClassName (t : Tables) (r : ObjectRef) : Except Error String := do
  match ← t.object r with
  | none => pure noneName
  | some (.imported _ e) => t.name e.className
  | some (.exported _ e) => if e.type.isNone then pure "Class" else t.objectName e.type

end Tables

end UnrealPackage
