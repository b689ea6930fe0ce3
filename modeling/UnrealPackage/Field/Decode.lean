import UnrealPackage.Field.Record
import UnrealPackage.Flags
import UnrealPackage.Property.Decode
import UnrealPackage.Script.Expr.Decode
import UnrealPackage.Tables.FullName
/-!
# Reading field records

The payload of a field begins with the state of its script, if it is flagged to have one, and with
a property list, unless the field is a class. Then come the references to super and next, and the
body of its class.

The end of a script shows only when the script is read. At this point the natives need not be
known: calls of every layout end with the same mark, so all of them are read as plain calls.
-/

namespace UnrealPackage

namespace Decode

/-- Skips the state of a script. -/
def stateFrame : Decode Unit := do
  let _node ← compact
  let _stateNode ← compact
  let _probeMask ← u64
  let _latentAction ← i32
  let _offset ← compact

/-- The number of bytes left. -/
def left : Decode Nat := do
  let input ← get
  pure input.length

/-- A value that is there only under a condition. -/
def onlyIf (condition : Bool) (d : Decode α) : Decode (Option α) :=
  if condition then some <$> d else pure none

/-- Items with their number in front. -/
def list (item : Decode α) : Decode (List α) := do
  let count ← compact
  counted item count

/-- What every holder of fields has, in a payload of `length` bytes. -/
def structInfo (ctx : Script.Context) (length : Nat) : Decode StructInfo := do
  let scriptText ← compactRef
  let child ← compactRef
  let friendlyName ← compact
  let cppText ← compactRef
  let line ← i32
  let textPos ← i32
  let scriptSize ← i32
  let before ← left
  let _script ← Script.decode { ctx with natives := .any } scriptSize.toNatClampNeg.toUInt32
  let after ← left
  let scriptStart := length - before
  let scriptEnd := length - after
  pure {
    scriptText, child, friendlyName, cppText, line, textPos, scriptSize, scriptStart, scriptEnd }

/-- What a function has besides. -/
def functionInfo : Decode FunctionInfo := do
  let nativeIndex ← u16
  let precedence ← u8
  let flags ← u32
  let replicationOffset ← onlyIf (hasFlag flags FunctionFlag.net) u16
  pure { nativeIndex, precedence, flags, replicationOffset }

/-- What a state has besides. -/
def stateInfo : Decode StateInfo := do
  let probeMask ← u64
  let ignoreMask ← u64
  let labelTableOffset ← u16
  let flags ← u32
  pure { probeMask, ignoreMask, labelTableOffset, flags }

/-- A class that another one was compiled against. -/
def dependency : Decode Dependency := do
  let type ← compactRef
  let deep ← i32
  let scriptTextCrc ← i32
  pure { type, deep, scriptTextCrc }

/-- What a class has besides, in a payload of `length` bytes. -/
def classInfo (length : Nat) : Decode ClassInfo := do
  let flags ← u32
  let guid ← guid
  let dependencies ← list dependency
  let packageImports ← list compact
  let within ← compactRef
  let configName ← compact
  let hideCategories ← list compact
  let after ← left
  pure ⟨flags, guid, dependencies, packageImports, within, configName, hideCategories,
    length - after⟩

/-- The type of a property of a class, with what it refers to. -/
def propertyType : FieldClass → Decode PropertyType
  | .byteProperty => .byte <$> compactRef
  | .objectProperty => .object <$> compactRef
  | .classProperty => do
    let objectType ← compactRef
    let metaClass ← compactRef
    pure (.classRef objectType metaClass)
  | .arrayProperty => .array <$> compactRef
  | .structProperty => .struct <$> compactRef
  | .delegateProperty => .delegate <$> compactRef
  | .mapProperty => do
    let key ← compactRef
    let value ← compactRef
    pure (.map key value)
  | .fixedArrayProperty => do
    let inner ← compactRef
    let count ← compact
    pure (.fixedArray inner count)
  | .boolProperty => pure .bool
  | .floatProperty => pure .float
  | .nameProperty => pure .name
  | .strProperty => pure .str
  | .stringProperty => pure .string
  | .pointerProperty => pure .pointer
  | _ => pure .int

/-- The body of a property of a class. -/
def propertyInfo (c : FieldClass) : Decode PropertyInfo := do
  let arrayDim ← u16
  let elementSize ← u16
  let flags ← u32
  let category ← compact
  let replicationOffset ← onlyIf (hasFlag flags PropertyFlag.net) u16
  let type ← propertyType c
  pure { arrayDim, elementSize, flags, category, replicationOffset, type }

/-- The body of a field of a class, in a payload of `length` bytes. -/
def fieldBody (ctx : Script.Context) (length : Nat) : FieldClass → Decode FieldBody
  | .struct => .struct <$> structInfo ctx length
  | .function => do
    let info ← structInfo ctx length
    let function ← functionInfo
    pure (.function info function)
  | .state => do
    let info ← structInfo ctx length
    let state ← stateInfo
    pure (.state info state)
  | .classType => do
    let info ← structInfo ctx length
    let state ← stateInfo
    let type ← classInfo length
    pure (.classType info state type)
  | .enum => .enum <$> list compact
  | .const => .const <$> text ctx.charset
  | c => .property <$> propertyInfo c

end Decode

/-- The entry, the class and the name of a field, as the tables tell them. -/
def fieldHead (t : Tables) (index : Nat) : Except Error (ExportEntry × FieldClass × String) := do
  let entry ← t.exportAt index
  let type ← FieldClass.ofName (← t.objectClassName (.ofExport index))
  let name ← t.name entry.objectName
  pure (entry, type, name)

/-- The field of an export, from its payload. -/
def decodeField (ctx : PropertyContext) (format : Script.ScriptFormat) (index : Nat)
    (payload : List UInt8) : Except Error FieldRecord := do
  let (entry, type, name) ← fieldHead ctx.tables index
  let script : Script.Context := ⟨ctx.tables, .any, format, ctx.charset⟩
  let read : Decode FieldRecord := do
    if hasFlag entry.flags ObjectFlag.hasStack then Decode.stateFrame
    if type ≠ .classType then
      let scope ← liftM (ctx.tables.objectClassFullName (.ofExport index))
      let _ ← readProperties ctx scope
    let super ← Decode.compactRef
    let next ← Decode.compactRef
    let body ← Decode.fieldBody script payload.length type
    pure { index, name, super, next, body }
  let (record, _) ← read payload
  pure record

end UnrealPackage
