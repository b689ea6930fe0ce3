import UnrealPackage.Text.Quoted
/-!
# Failures

`Error` has one constructor for each cause why a package, a script, a property list or a field
list cannot be read, written or changed. `Error.message` is the only place with their wording.
-/

namespace UnrealPackage

/-- A list whose entries are addressed by index. -/
inductive IndexedList
  | names
  | imports
  | exports
  | slots
deriving DecidableEq, Repr

/-- The word for one entry of the list. -/
def IndexedList.label : IndexedList → String
  | names => "name"
  | imports => "import"
  | exports => "export"
  | slots => "slot"

/-- Why a file or a directory cannot be read. -/
inductive FileError
  | notFound
  | notDirectory
  | isDirectory
deriving DecidableEq, Repr

/-- The wording of a file error. -/
def FileError.message : FileError → String
  | notFound => "No such file or directory (os error 2)"
  | notDirectory => "Not a directory (os error 20)"
  | isDirectory => "Is a directory (os error 21)"

/-- Why an operation on a package fails. -/
inductive Error
  /-- The bytes end in the middle of a value. -/
  | truncated
  /-- A length-prefixed text holds bytes that are no characters. -/
  | malformedString
  /-- A wide text holds half of a surrogate pair. -/
  | loneSurrogate
  /-- A file or directory cannot be read. -/
  | file (cause : FileError)
  /-- A script constant in wide characters holds half of a surrogate pair. -/
  | malformedWideConstant
  /-- The image does not begin with the package signature. -/
  | badMagic (found : UInt32)
  /-- The header counts more saved generations than any package has. -/
  | implausibleGenerations (count : Nat)
  /-- A list of generations of another length cannot replace the one in the header. -/
  | generationCountFixed (expected got : Nat)
  /-- A class is not named by its package and its own name. -/
  | malformedClassName (name : String)
  /-- A written package would not fit 32-bit offsets. -/
  | packageTooLarge
  /-- The owners of an object form a ring. -/
  | outerChainLoops (reference : Int)
  /-- The supers of a struct form a ring, or are too many to follow. -/
  | superChainLoops (name : String)
  /-- The fields of a struct form a ring. -/
  | fieldListLoops (name : String)
  /-- A definition needs itself to be read. -/
  | circularDefinition (name : String)
  /-- An opcode has no meaning in the table that is active. -/
  | unknownOpcode (opcode : UInt8) (table : String)
  /-- A native function has no entry in the table of natives. -/
  | unknownNative (index : Nat)
  /-- A native call carries an index below the first native. -/
  | invalidNativeIndex (index : Nat) (opcode : UInt8)
  /-- A native operator is followed by something other than the end of its operands. -/
  | operandsNotEnded (native : String) (found : String)
  /-- A script expression is nested deeper than the reader follows. -/
  | expressionTooDeep (limit : Nat)
  /-- A default case has a value to compare with. -/
  | defaultCaseHasValue
  /-- A case other than the default has no value to compare with. -/
  | caseWithoutValue (offset : UInt16)
  /-- A native index does not fit the opcodes of native calls. -/
  | nativeIndexTooLarge (index : Nat)
  /-- A property record has a type that is never stored. -/
  | unknownPropertyType (tag : UInt8)
  /-- A property record does not agree with the template of its name, or has none. -/
  | noTemplate (property scope : String)
  /-- Properties of this kind are never stored. -/
  | notSerialised (kind : String)
  /-- A value is of another kind than its property. -/
  | valueMismatch (value kind : String)
  /-- Property lists are nested deeper than the reader follows. -/
  | propertiesTooDeep (scope : String)
  /-- Array elements are nested deeper than the reader follows. -/
  | elementsTooDeep
  /-- No kind of field has this class name. -/
  | unknownFieldClass (name : String)
  /-- A field other than a property stands where a property is needed. -/
  | notProperty (name : String)
  /-- A field other than a struct stands where a struct is needed. -/
  | notStruct (name : String)
  /-- A field other than a class stands where a class is needed. -/
  | notClass (name : String)
  /-- A field without a script is to be disassembled. -/
  | noScript (name : String)
  /-- An array property names no property for its elements. -/
  | arrayWithoutInner (name : String)
  /-- The text is no schema. -/
  | malformedSchema
  /-- The text is no table of native functions. -/
  | malformedNatives
  /-- An index lies outside its list. -/
  | outOfRange (list : IndexedList) (index : Int) (length : Nat)
  /-- A name is not in the name table. -/
  | nameNotFound (name : String)
  /-- No object, struct or package has this name. -/
  | objectNotFound (name : String)
  /-- No export has a payload, so there is no place behind the payloads. -/
  | emptyDataBlock
  /-- The package was opened for reading only. -/
  | readOnly
deriving DecidableEq, Repr

namespace Error

/-- The wording of a fault in the format of the data; `none` for the other causes. -/
def formatMessage? : Error → Option String
  | malformedWideConstant => "unicode string constant: invalid utf-16: lone surrogate found"
  | badMagic found => s!"invalid magic 0x{hexPadded 8 found.toNat}"
  | implausibleGenerations count => s!"implausible generation count {count}"
  | generationCountFixed expected got => s!"generation count is fixed at {expected}, got {got}"
  | malformedClassName name => s!"class name {quoted name} is not Package.Class"
  | packageTooLarge => "package exceeds 2 GiB"
  | outerChainLoops reference => s!"outer chain of {reference} loops"
  | superChainLoops name => s!"super chain of {name} loops"
  | fieldListLoops name => s!"field list of {name} loops"
  | circularDefinition name => s!"definition of {name} needs itself"
  | invalidNativeIndex index opcode =>
    s!"invalid native index {index} (opcode 0x{hexByte opcode})"
  | operandsNotEnded native found =>
    s!"native {native}: expected end of function params, found {found}"
  | expressionTooDeep limit => s!"expression nesting deeper than {limit}"
  | defaultCaseHasValue => "default case carries a value"
  | caseWithoutValue offset => s!"case 0x{hexPadded 4 offset.toNat} has no value"
  | nativeIndexTooLarge index => s!"native index {index} cannot be encoded"
  | notSerialised kind => s!"{kind} properties are not serialised"
  | valueMismatch value kind => s!"{value} does not fit a {kind} property"
  | propertiesTooDeep scope => s!"properties of {scope} nested too deep"
  | elementsTooDeep => "array elements nested too deep"
  | notProperty name => s!"{name} is not a property"
  | notStruct name => s!"{name} is not a struct"
  | notClass name => s!"{name} is not a class"
  | noScript name => s!"{name} has no script"
  | arrayWithoutInner name => s!"array {name} has no inner property"
  | malformedSchema => "schema json"
  | malformedNatives => "native table json"
  | _ => none

/-- The wording of a failure. -/
def message : Error → String
  | truncated => "Unexpected end of stream"
  | malformedString => "IO error: malformed string bytes"
  | loneSurrogate => "IO error: invalid utf-16: lone surrogate found"
  | file cause => s!"IO error: {cause.message}"
  | unknownOpcode opcode table => s!"Unknown opcode 0x{hexByte opcode} in {table} table"
  | unknownNative index => s!"Unknown native function {index}"
  | unknownPropertyType tag => s!"Unknown property type {tag}"
  | unknownFieldClass name => s!"Unknown field class {name}"
  | noTemplate property scope => s!"Property {property} has no template in {scope}"
  | outOfRange list index length => s!"{list.label} index {index} out of range (len {length})"
  | nameNotFound name => s!"Name not found: {name}"
  | objectNotFound name => s!"Object not found: {name}"
  | emptyDataBlock => "No export carries data"
  | readOnly => "Package is opened read-only"
  | e => "Format error: " ++ (formatMessage? e).getD ""

end Error

end UnrealPackage
