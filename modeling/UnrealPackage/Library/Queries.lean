import UnrealPackage.Library.Fields
import UnrealPackage.Script.Expr.Render
import UnrealPackage.Script.Native.Stock
/-!
# What a library is asked

Questions about script types by full name, over any access to a library. Where a question takes more
than single objects (the native functions, a property list, a script), what gives it is a parameter.
-/

namespace UnrealPackage

open Script

/-- The native function that a field declares, if it declares one. -/
def nativeOf (t : Tables) : FieldRecord → Option NativeFunction
  | { name, body := .function info f, .. } =>
    if f.isNative && f.nativeIndex != 0 then
      some {
        index := f.nativeIndex.toNat
        name := match t.name info.friendlyName with
          | .ok friendly => friendly
          | .error _ => name
        preOperator := hasFlag f.flags FunctionFlag.preOperator
        precedence := f.precedence
        isOperator := hasFlag f.flags FunctionFlag.operator }
    else none
  | _ => none

section

variable {m : Type → Type} [Monad m] (record? : Located → m (Option FieldRecord))

/-- The native function that an export declares, if it is a function that can be read. -/
def nativeAt (x : Located) : m (Option NativeFunction) := do
  match x.package.tables.objectClassName (.ofExport x.index) with
  | .ok "Function" =>
    let r ← record? x
    pure (r.bind (nativeOf x.package.tables))
  | _ => pure none

/-- The native functions declared in one package, in the order of its exports; none if there is no
such package. -/
def nativesIn : Option Package → m (List NativeFunction)
  | none => pure []
  | some package => do
    let found ← (List.range package.tables.exports.length).mapM fun index =>
      nativeAt record? { package, index }
    pure found.reduceOption

/-- The native functions declared in some packages; of two with one index the later one counts. -/
def nativesOf (package? : String → m (Option Package)) (names : List String) :
    m (List NativeFunction) := do
  let found ← names.mapM fun name => do nativesIn record? (← package? name)
  pure (found.flatten.foldl insertNative [])

end

namespace Access

variable {m : Type → Type} [Monad m] [MonadLiftT (Except Error) m] (a : Access m)

/-- The field of a full name. -/
def field (fullName : String) : m FieldRecord := do
  let x ← a.locate fullName
  a.record x

/-- The full name of the super of a struct, if it has one. -/
def superClass (fullName : String) : m (Option String) := do
  let x ← a.locate fullName
  let r ← a.record x
  match ← a.resolve x r.super with
  | none => pure none
  | some parent => some <$> a.fullName parent

/-- Whether `name` or one of its first `room` supers is called `ancestor`; it is an error if there
are more supers than these. -/
def descends (start ancestor : String) : Nat → String → m Bool
  | 0, name =>
    if sameName name ancestor then pure true else Error.raise (.superChainLoops start)
  | room + 1, name => do
    if sameName name ancestor then pure true
    else match ← a.superClass name with
      | none => pure false
      | some parent => descends start ancestor room parent

/-- The default values of the properties of a class; `properties` reads the list at the end of its
payload. -/
def classDefaults (properties : Located → String → Nat → m (List Property)) (fullName : String) :
    m (List Property) := do
  let x ← a.locate fullName
  let r ← a.record x
  match r.body with
  | .classType _ _ info => properties x fullName info.defaultsStart
  | _ => Error.raise (.notClass fullName)

/-- The lines of the script of a function, state or class; `statements` reads the script. -/
def disassemble (statements : Located → StructInfo → m (List Script.Expr)) (fullName : String) :
    m (List String) := do
  let x ← a.locate fullName
  let r ← a.record x
  match r.body.structInfo? with
  | none => Error.raise (.noScript fullName)
  | some info =>
    let script ← statements x info
    liftM (Script.lines x.package.tables script)

end Access

namespace Located

/-- The property list at a place in the payload, of an object of the class `scope`. -/
def properties (schema : SchemaResolver) (x : Located) (scope : String) (start : Nat) :
    Except Error (List Property) := do
  let data ← x.payload
  let read := readProperties (x.propertyContext schema) scope
  let (properties, _) ← read (data.drop start)
  pure properties

/-- The statements of the script of a field, with the native functions that `natives` gives. -/
def statements (natives : NativeTable) (x : Located) (info : StructInfo) :
    Except Error (List Script.Expr) := do
  let data ← x.payload
  let script := (data.take info.scriptEnd).drop info.scriptStart
  let p := x.package
  let ctx : Script.Context := ⟨p.tables, natives, p.options.format, p.options.charset⟩
  let (statements, _) ← Script.decode ctx info.scriptSize.toNatClampNeg.toUInt32 script
  pure statements

end Located

namespace Library

/-- The native functions that the library declares; what cannot be opened or read declares none. -/
def nativeFunctions (l : Library) : List NativeFunction :=
  Id.run (nativesOf (fun x => (l.recordAt x).toOption) (fun name => (l.package name).toOption)
    l.nativePackages)

/-- The native function of an index. -/
def native (l : Library) : NativeTable :=
  .ofList l.nativeFunctions .stock

/-- The field of a full name. -/
def field (l : Library) (fullName : String) : Except Error FieldRecord :=
  (l.access l.recordAt).field fullName

/-- The full name of the super of a struct, if it has one. -/
def superClass (l : Library) (fullName : String) : Except Error (Option String) :=
  (l.access l.recordAt).superClass fullName

/-- Whether a class is another one or derives from it. -/
def isSubclass (l : Library) (name ancestor : String) : Except Error Bool :=
  (l.access l.recordAt).descends name ancestor superLimit name

/-- The default values of the properties of a class. -/
def classDefaults (l : Library) (fullName : String) : Except Error (List Property) :=
  (l.access l.recordAt).classDefaults (Located.properties l.fields) fullName

/-- The lines of the script of a function, state or class. -/
def disassemble (l : Library) (fullName : String) : Except Error (List String) :=
  (l.access l.recordAt).disassemble (Located.statements l.native) fullName

end Library

end UnrealPackage
