import UnrealPackage.Library.Queries
import UnrealPackage.Tables.FullNameMemo
/-!
# Sessions

A session asks one library again and again and keeps what it found: the packages it opened, full
names within them, the fields it read, the flattened fields of structs, and the native functions.
It looks up each of them while it answers a question, and so it keeps what it found on the way even
if there is no answer in the end. What it could not find is looked for anew.

`reading` is how a property list is read although the fields of structs are found on the way: it is
read against a table of the structs that were asked for so far, and begun anew with one more as long
as one is missing there.
-/

namespace UnrealPackage

open Script

/-- The place of a field among those of all packages. -/
abbrev FieldKey := String × Nat

/-- The place of an export among those of all packages. -/
def Located.key (x : Located) : FieldKey :=
  (foldCase x.package.tables.package, x.index)

/-- What a session has found so far. -/
structure Memo where
  /-- Packages, by names in lower case. -/
  packages : List (String × Package)
  /-- Full names, by the tables that they were found in. -/
  fullNames : List (Tables × FullNameMemo)
  records : List (FieldKey × FieldRecord)
  /-- Fields of structs, by full names in lower case. -/
  structs : List (String × List FieldTemplate)
  natives : Option (List NativeFunction)

/-- The memo of a session that begins. -/
def Memo.empty : Memo := ⟨[], [], [], [], none⟩

/-- Why a question has no answer, with what was found on the way. -/
structure Unanswered where
  error : Error
  memo : Memo

instance : Coe Unanswered Error := ⟨Unanswered.error⟩

/-- A question to a library that looks into a memo and adds to it. -/
abbrev Session := StateT Memo (Except Unanswered)

namespace Session

instance : MonadLift (Except Error) Session where
  monadLift
    | .ok a => fun memo => .ok (a, memo)
    | .error e => fun memo => .error ⟨e, memo⟩

/-- The answer to a question or the reason why there is none, either of which goes on. -/
def attempt (question : Session α) : Session (Except Error α) := fun memo =>
  match question memo with
  | .ok (a, memo) => .ok (.ok a, memo)
  | .error failure => .ok (.error failure.error, failure.memo)

/-- What was answered, if anything was; there is no answer about what needs itself. -/
def unlessCircular : Except Error α → Except Error (Option α)
  | .ok a => .ok (some a)
  | .error (.circularDefinition name) => .error (.circularDefinition name)
  | .error _ => .ok none

/-- What the memo holds; else what is found now, which the memo then holds. -/
def remembered (known : Memo → Option α) (found : Session α) (keep : Memo → α → Memo) :
    Session α := do
  match known (← get) with
  | some a => pure a
  | none =>
    let a ← found
    modify fun memo => keep memo a
    pure a

/-- A question about full names in tables. -/
def naming (t : Tables) (question : Remembering α) : Session α := fun memo =>
  match question ((memo.fullNames.lookup t).getD .empty) with
  | .ok (a, names) =>
    .ok (a, { memo with fullNames := (t, names) :: memo.fullNames.filter (·.1 != t) })
  | .error e => .error ⟨e, memo⟩

/-- A schema of those structs that were asked for. One that is missing has a definition that is not
finished. -/
def schemaOf (asked : List (String × Except Error (List FieldTemplate))) : SchemaResolver :=
  fun name => (asked.lookup name).getD (throw (.circularDefinition name))

/-- What is read against a schema, by asking for each struct that it needs; `room` more of them may
be needed. -/
def reading (ask : String → Session (List FieldTemplate)) (read : SchemaResolver → Except Error α) :
    Nat → List (String × Except Error (List FieldTemplate)) → Session α
  | 0, asked => liftM (read (schemaOf asked))
  | room + 1, asked =>
    match read (schemaOf asked) with
    | .error (.circularDefinition name) =>
      if (asked.lookup name).isSome then Error.raise (.circularDefinition name)
      else do
        let found ← attempt (ask name)
        reading ask read room ((name, found) :: asked)
    | found => liftM found

section

variable (l : Library)

/-- The package of a name. -/
def package (name : String) : Session Package :=
  remembered (·.packages.lookup (foldCase name)) (liftM (l.package name))
    fun memo p => { memo with packages := (foldCase name, p) :: memo.packages }

/-- The export of a full name. -/
def locate (fullName : String) : Session Located := do
  let package ← package l (firstSegment fullName)
  match ← naming package.tables (Remembering.findExport? package.tables fullName) with
  | some index => pure { package, index }
  | none => Error.raise (.objectNotFound fullName)

/-- The export that a reference in the package of `x` leads to, if it leads to one at all. -/
def resolve (x : Located) (r : ObjectRef) : Session (Option Located) := do
  match r.target with
  | .nothing => pure none
  | .exported index => pure (some { package := x.package, index })
  | .imported index =>
    let fullName ← naming x.package.tables (Remembering.importFullName x.package.tables index)
    some <$> locate l fullName

/-- The access to a library whose fields `record` gives. -/
def access (record : Located → Session FieldRecord) : Access Session where
  locate := locate l
  resolve := resolve l
  fullName x := naming x.package.tables (Remembering.exportFullName x.package.tables x.index)
  objectFullName x r := naming x.package.tables (Remembering.objectFullName x.package.tables r)
  record := record

/-- The field that an export is, with the fields of structs given by `ask`. The name of its class
is looked up on the way. -/
def record (ask : String → Session (List FieldTemplate)) (x : Located) : Session FieldRecord :=
  remembered (·.records.lookup x.key)
    (do
      let t := x.package.tables
      let data ← liftM x.payload
      let _ ← attempt (naming t (Remembering.objectClassFullName t (.ofExport x.index)))
      reading ask (fun schema => x.decode schema) (data.length + 1) [])
    fun memo r => { memo with records := (x.key, r) :: memo.records }

/-- The fields of structs, found by reading definitions at most `depth` deep. -/
def fieldsWithin : Nat → String → Session (List FieldTemplate)
  | 0, fullName => keeping fullName (Error.raise (.circularDefinition fullName))
  | depth + 1, fullName =>
    keeping fullName
      ((access l (record (fieldsWithin depth))).flatten (l.source.exportCount + 1) fullName)
where
  /-- The fields of a struct, which the memo then holds. -/
  keeping (fullName : String) (found : Session (List FieldTemplate)) :=
    remembered (·.structs.lookup (foldCase fullName)) found
      fun memo ts => { memo with structs := (foldCase fullName, ts) :: memo.structs }

/-- The fields of a struct, those of its supers first. -/
def fields (fullName : String) : Session (List FieldTemplate) :=
  fieldsWithin l (l.source.exportCount + 1) fullName

/-- The field that an export is. -/
def recordAt (x : Located) : Session FieldRecord :=
  record (fieldsWithin l l.source.exportCount) x

/-- The field that an export is, if it can be read; there is no answer if it needs itself. -/
def record? (x : Located) : Session (Option FieldRecord) := do
  let found ← attempt (recordAt l x)
  liftM (unlessCircular found)

/-- The package of a name, if it can be opened. -/
def package? (name : String) : Session (Option Package) :=
  Except.toOption <$> attempt (package l name)

/-- The native functions that the library declares. -/
def nativeFunctions : Session (List NativeFunction) :=
  remembered (·.natives) (nativesOf (record? l) (package? l) l.nativePackages)
    fun memo functions => { memo with natives := some functions }

/-- The statements of a script. The native functions are looked for only if one is called. -/
def statements (x : Located) (info : StructInfo) : Session (List Script.Expr) :=
  match x.statements .none info with
  | .error (.unknownNative _) => do
    let functions ← nativeFunctions l
    liftM (x.statements (.ofList functions .stock) info)
  | found => liftM found

/-- The property list at a place in a payload. -/
def properties (x : Located) (scope : String) (start : Nat) : Session (List Property) := do
  let data ← liftM x.payload
  reading (fields l) (fun schema => x.properties schema scope start) (data.length + 1) []

/-- The field of a full name. -/
def field (fullName : String) : Session FieldRecord :=
  (access l (recordAt l)).field fullName

/-- The full name of the super of a struct, if it has one. -/
def superClass (fullName : String) : Session (Option String) :=
  (access l (recordAt l)).superClass fullName

/-- Whether a class is another one or derives from it. -/
def isSubclass (name ancestor : String) : Session Bool :=
  (access l (recordAt l)).descends name ancestor Library.superLimit name

/-- The default values of the properties of a class. -/
def classDefaults (fullName : String) : Session (List Property) :=
  (access l (recordAt l)).classDefaults (properties l) fullName

/-- The lines of the script of a function, state or class. -/
def disassemble (fullName : String) : Session (List String) :=
  (access l (recordAt l)).disassemble (statements l) fullName

/-- The native function of an index. -/
def native (index : Nat) : Session NativeFunction := do
  let functions ← nativeFunctions l
  liftM (NativeTable.ofList functions .stock index)

end

end Session

end UnrealPackage
