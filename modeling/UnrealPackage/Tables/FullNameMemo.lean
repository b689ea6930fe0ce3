import UnrealPackage.Tables.FullName
/-!
# Remembered full names

Long listings ask for the same full names again and again. A memo keeps the chains that were
already followed; a name that could not be found is looked for anew each time. It is kept from one
question to the next (`FullNameMemo.after`), until the tables are told to forget it.
-/

namespace UnrealPackage

/-- The full names, without the package in front, that were already found. -/
structure FullNameMemo where
  known : List (ObjectRef × String)

/-- A memo that remembers nothing. -/
def FullNameMemo.empty : FullNameMemo := ⟨[]⟩

/-- A question about full names that may look into a memo and add to it. -/
abbrev Remembering := StateT FullNameMemo (Except Error)

namespace Remembering

/-- The chain of owners of an object, without the package that holds it. -/
def innerFullName (t : Tables) (r : ObjectRef) : Remembering String := do
  if r.isNone then pure noneName
  else
    match (← get).known.lookup r with
    | some name => pure name
    | none =>
      let name ← liftM (t.innerFullName r)
      modify fun memo => ⟨(r, name) :: memo.known⟩
      pure name

/-- The full name of an export. -/
def exportFullName (t : Tables) (index : Nat) : Remembering String := do
  let _ ← liftM (t.exportAt index)
  let inner ← innerFullName t (.ofExport index)
  pure (dotted [t.package, inner])

/-- The full name of an import. -/
def importFullName (t : Tables) (index : Nat) : Remembering String := do
  let _ ← liftM (t.importAt index)
  innerFullName t (.ofImport index)

/-- The full name of an object. -/
def objectFullName (t : Tables) (r : ObjectRef) : Remembering String :=
  match r.target with
  | .nothing => pure noneName
  | .exported i => exportFullName t i
  | .imported i => importFullName t i

/-- The full name of an object's class. -/
def objectClassFullName (t : Tables) (r : ObjectRef) : Remembering String := do
  match ← liftM (t.object r) with
  | none => pure noneName
  | some (.imported i _) => liftM (t.importClassFullName i)
  | some (.exported _ e) => if e.type.isNone then pure "Core.Class" else objectFullName t e.type

/-- Whether an export bears a name, given with or without the name of its package in front. -/
def exportBears (t : Tables) (name : String) (index : Nat) : Remembering Bool := fun memo =>
  match innerFullName t (.ofExport index) memo with
  | .error _ => .ok (false, memo)
  | .ok (inner, memo) =>
    .ok (sameName inner name || (t.withoutPackage? name).any (sameName inner), memo)

/-- The first export that bears a name. -/
def findExport? (t : Tables) (name : String) : Remembering (Option Nat) :=
  (List.range t.exports.length).findM? (exportBears t name)

/-- Whether an import has a full name. -/
def importBears (t : Tables) (fullName : String) (index : Nat) : Remembering Bool := fun memo =>
  match importFullName t index memo with
  | .error _ => .ok (false, memo)
  | .ok (found, memo) => .ok (sameName found fullName, memo)

/-- The first import with a full name. -/
def findImport? (t : Tables) (fullName : String) : Remembering (Option Nat) :=
  (List.range t.imports.length).findM? (importBears t fullName)

/-- A reference to the object of a name; exports are not asked for theirs if an import has it. -/
def referenceTo (t : Tables) (name : String) : Remembering ObjectRef := do
  match ← findImport? t name with
  | some i => pure (.ofImport i)
  | none =>
    match ← findExport? t name with
    | some i => pure (.ofExport i)
    | none => pure .none

/-- The memo that a question leaves. One that fails has added nothing to it. -/
def leaves {α : Type} (question : Remembering α) (memo : FullNameMemo) : FullNameMemo :=
  match question memo with
  | .ok (_, after) => after
  | .error _ => memo

end Remembering

/-- What tables can be asked about full names, and to forget those that they found. -/
inductive NameQuestion
  | inner (r : ObjectRef)
  | ofExport (index : Nat)
  | ofImport (index : Nat)
  | ofObject (r : ObjectRef)
  | ofClass (r : ObjectRef)
  | findExport (name : String)
  | findImport (fullName : String)
  | reference (name : String)
  | forget
deriving DecidableEq, Repr

namespace FullNameMemo

open Remembering

/-- The memo after one more question. -/
def ask (t : Tables) (memo : FullNameMemo) : NameQuestion → FullNameMemo
  | .inner r => leaves (innerFullName t r) memo
  | .ofExport index => leaves (exportFullName t index) memo
  | .ofImport index => leaves (importFullName t index) memo
  | .ofObject r => leaves (objectFullName t r) memo
  | .ofClass r => leaves (objectClassFullName t r) memo
  | .findExport name => leaves (findExport? t name) memo
  | .findImport fullName => leaves (findImport? t fullName) memo
  | .reference name => leaves (referenceTo t name) memo
  | .forget => .empty

/-- The memo after questions that were asked in turn. -/
def after (t : Tables) (earlier : List NameQuestion) : FullNameMemo :=
  earlier.foldl (ask t) .empty

end FullNameMemo

end UnrealPackage
