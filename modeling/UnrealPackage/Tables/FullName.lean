import UnrealPackage.Tables.Basic
/-!
# Full names

The full name of an object lists the names along the chain of its owners, root first, joined with
dots. The chain of an import begins at a foreign package, so it is complete as it stands; before
the chain of an export goes the name of the package that holds it.

A chain that is longer than both tables together must pass an entry twice. `outerChain` stops
there, so that tables whose owners form a ring give an error.
-/

namespace UnrealPackage.Tables

/-- The names from the root of the owners of `current` down to its own; `room` more entries may
follow before the owners of `start` count as a ring. -/
def outerChain (t : Tables) (start : ObjectRef) : Nat → ObjectRef → Except Error (List String)
  | 0, current => do
    match ← t.object current with
    | none => pure []
    | some _ => throw (.outerChainLoops start.value.toInt)
  | room + 1, current => do
    match ← t.object current with
    | none => pure []
    | some e =>
      let name ← t.name e.objectName
      let owners ← outerChain t start room e.outer
      pure (owners ++ [name])

/-- The chain of owners of an object, its own name last, without the package that holds it. -/
def innerFullName (t : Tables) (r : ObjectRef) : Except Error String :=
  if r.isNone then pure noneName
  else dotted <$> t.outerChain r (t.exports.length + t.imports.length + 1) r

/-- The full name of an export. -/
def exportFullName (t : Tables) (index : Nat) : Except Error String := do
  let _ ← t.exportAt index
  let inner ← t.innerFullName (.ofExport index)
  pure (dotted [t.package, inner])

/-- The full name of an import. -/
def importFullName (t : Tables) (index : Nat) : Except Error String := do
  let _ ← t.importAt index
  t.innerFullName (.ofImport index)

/-- The full name of an object. -/
def objectFullName (t : Tables) (r : ObjectRef) : Except Error String :=
  match r.target with
  | .nothing => pure noneName
  | .exported i => t.exportFullName i
  | .imported i => t.importFullName i

/-- The full name of an object's class. -/
def objectClassFullName (t : Tables) (r : ObjectRef) : Except Error String := do
  match ← t.object r with
  | none => pure noneName
  | some (.imported i _) => t.importClassFullName i
  | some (.exported _ e) => if e.type.isNone then pure "Core.Class" else t.objectFullName e.type

/-- A name without the name of this package in front, if it begins with it. -/
def withoutPackage? (t : Tables) (name : String) : Option String :=
  match splitFirstDot? name with
  | some (head, rest) => if sameName head t.package then some rest else none
  | none => none

/-- Whether an export bears a name, given with or without the name of this package in front. -/
def exportBears (t : Tables) (name : String) (index : Nat) : Bool :=
  match t.innerFullName (.ofExport index) with
  | .error _ => false
  | .ok inner => sameName inner name || (t.withoutPackage? name).any (sameName inner)

/-- The first export that bears a name. -/
def findExport? (t : Tables) (name : String) : Option Nat :=
  (List.range t.exports.length).find? (t.exportBears name)

/-- The first import with a full name. -/
def findImport? (t : Tables) (fullName : String) : Option Nat :=
  (List.range t.imports.length).find? fun i =>
    match t.importFullName i with
    | .error _ => false
    | .ok found => sameName found fullName

/-- A reference to the object of a name: an import if there is one, else an export. -/
def referenceTo (t : Tables) (name : String) : ObjectRef :=
  match t.findImport? name, t.findExport? name with
  | some i, _ => .ofImport i
  | none, some i => .ofExport i
  | none, none => .none

end UnrealPackage.Tables
