import UnrealPackage.Package.Relocation
/-!
# Changes to imports

An import is added or renamed by its dotted name. All parts of the name but the last stand for
packages: each is an import of the class `Core.Package` that the part before it owns. Those that are
there already are used again.
-/

namespace UnrealPackage

/-- A class named by its package and its own name. -/
structure ClassPath where
  package : String
  name : String
deriving DecidableEq, Repr

/-- The class of a dotted name, which has to have exactly two parts. -/
def ClassPath.ofName (name : String) : Except Error ClassPath :=
  match segments name with
  | [package, short] =>
    if package.isEmpty || short.isEmpty then throw (.malformedClassName name)
    else pure ⟨package, short⟩
  | _ => throw (.malformedClassName name)

/-- An import that is wanted: its dotted name and its class. -/
structure ImportRequest where
  name : String
  type : ClassPath

/-- The imports that are wanted by pairs of the dotted names of an object and its class. -/
def importRequests (requests : List (String × String)) : Except Error (List ImportRequest) :=
  requests.mapM fun (name, type) => do
    let type ← ClassPath.ofName type
    pure ⟨name, type⟩

/-- The names that an import and the packages around it need. -/
def ImportRequest.names (r : ImportRequest) : List String :=
  segments r.name ++ [r.type.package, r.type.name]

/-- The list with an item at its end unless it holds one, and the index of that item. -/
def findOrAdd [BEq α] (items : List α) (item : α) : List α × Nat :=
  match items.findIdx? (· == item) with
  | some i => (items, i)
  | none => (items ++ [item], items.length)

/-- The names that every package import needs. -/
def packageClassNames : List String := ["Core", "Package"]

namespace Tables

/-- An import with names from the table. -/
def importEntry (t : Tables) (type : ClassPath) (outer : ObjectRef) (name : String) :
    Except Error ImportEntry := do
  let classPackage ← t.nameIndex type.package
  let className ← t.nameIndex type.name
  let objectName ← t.nameIndex name
  pure { classPackage, className, outer, objectName }

/-- The imports with a package import for each of some names added where it is missing, each owned
by the one before it, and the reference to the last. -/
def nestImports (package : NameIndex × NameIndex) :
    List ImportEntry → ObjectRef → List NameIndex → List ImportEntry × ObjectRef
  | imports, outer, [] => (imports, outer)
  | imports, outer, part :: path =>
    let (imports, index) := findOrAdd imports ⟨package.1, package.2, outer, part⟩
    nestImports package imports (.ofImport index) path

/-- The imports with the packages of a path added to them where they are missing, and the reference
to the innermost one. -/
def packageImports (t : Tables) (imports : List ImportEntry) (path : List String) :
    Except Error (List ImportEntry × ObjectRef) := do
  let core ← t.nameIndex "Core"
  let package ← t.nameIndex "Package"
  let path ← path.mapM t.nameIndex
  pure (nestImports (core, package) imports .none path)

/-- The imports with those requested added to them. With `force`, an import is added even if there
is one like it. -/
def requestImports (t : Tables) (force : Bool) :
    List ImportEntry → List ImportRequest → Except Error (List ImportEntry)
  | imports, [] => pure imports
  | imports, r :: rest => do
    let path := segments r.name
    let (imports, outer) ← t.packageImports imports path.dropLast
    let e ← t.importEntry r.type outer (path.getLastD "")
    let imports := if force || !imports.contains e then imports ++ [e] else imports
    requestImports t force imports rest

end Tables

namespace Change

/-- Adds the names that imports need, and gives the imports. -/
def prepareImports (requests : List (String × String)) : Change (List ImportRequest) := do
  let wanted ← liftM (importRequests requests)
  ensureNames (packageClassNames ++ wanted.flatMap ImportRequest.names)
  pure wanted

/-- Adds imports with the names and packages that they need. -/
def addImports (requests : List (String × String)) (force : Bool) : Change Unit := do
  let wanted ← prepareImports requests
  let before ← gets fun p => pure p.tables.imports
  let after ← gets fun p => p.tables.requestImports force p.tables.imports wanted
  if after ≠ before then updateImports fun _ => after

/-- Adds the names that another dotted name of an import needs. -/
def prepareRename (index : Nat) (name : String) : Change Unit := do
  let _ ← gets fun p => p.tables.importAt index
  ensureNames (packageClassNames ++ segments name)

/-- Gives an import another dotted name, under the packages that the name asks for. -/
def renameImport (index : Nat) (name : String) : Change Unit := do
  prepareRename index name
  let path := segments name
  let (imports, outer) ← gets fun p => p.tables.packageImports p.tables.imports path.dropLast
  let objectName ← gets fun p => p.tables.nameIndex (path.getLastD "")
  updateImports fun _ => imports.modify index fun e => { e with outer, objectName }

/-- Adds the names that another class of an import needs, and gives the class. -/
def prepareClass (index : Nat) (type : String) : Change ClassPath := do
  let _ ← gets fun p => p.tables.importAt index
  let type ← liftM (ClassPath.ofName type)
  ensureNames [type.package, type.name]
  pure type

/-- Points an import to another class. -/
def changeImportClass (index : Nat) (type : String) : Change Unit := do
  let type ← prepareClass index type
  let classPackage ← gets fun p => p.tables.nameIndex type.package
  let className ← gets fun p => p.tables.nameIndex type.name
  updateImports fun imports => imports.modify index fun e => { e with classPackage, className }

/-- A reference to the class of a full name, which is imported if it is not there; none for the
empty name. -/
def classReference (name : String) : Change ObjectRef := do
  if name.isEmpty then pure .none
  else
    let found ← gets fun p => pure (p.tables.referenceTo name)
    if found.isNone then
      addImports [(name, "Core.Class")] false
      gets fun p => match p.tables.findImport? name with
        | some i => pure (.ofImport i)
        | none => throw (.objectNotFound name)
    else pure found

end Change

end UnrealPackage
