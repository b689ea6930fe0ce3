import UnrealPackage.Script.Native
import UnrealPackage.Text.Case
/-!
# Opcodes

What a byte at the beginning of an expression means. Two revisions of the opcode table exist, and
each has a second table for the operand of `Op.conversion` and all that is nested in it: the first
one with some opcodes given to casts.

Expressions of one layout share a constructor of `Op`; which of them is meant is told by a small
enumeration, and each of these has a function `opcode`. `opcodeTable` is made from them.
-/

namespace UnrealPackage.Script

/-- Revision of the opcode table. -/
inductive ScriptFormat
  /-- Older clients, with fewer casts and one conversion. -/
  | legacy
  /-- Clients with comparison of structs and 64-bit integers. -/
  | extended
deriving DecidableEq, Repr, Inhabited

/-- The word for a revision. -/
def ScriptFormat.name : ScriptFormat → String
  | legacy => "legacy"
  | extended => "extended"

/-- The revision of a word in any case, or a complaint. -/
def ScriptFormat.ofName (word : String) : Except String ScriptFormat :=
  match foldCase word with
  | "legacy" => .ok .legacy
  | "extended" => .ok .extended
  | other => .error ("unknown script format '" ++ other ++ "'")

/-- Which of the two tables is active. -/
inductive OpcodeTable
  | main
  | conversion
deriving DecidableEq, Repr

/-- The word for a table. -/
def OpcodeTable.label : OpcodeTable → String
  | main => "main"
  | conversion => "conversion"

/-! ## Expressions of one layout -/

/-- Expressions that carry nothing. -/
inductive Atom
  | stop
  | nothing
  | endOfParams
  | selfObject
  | intZero
  | intOne
  | yes
  | no
  | noObject
  | iteratorPop
  | iteratorNext
deriving DecidableEq, Repr

/-- Expressions that carry one reference. -/
inductive RefUse
  | localVariable
  | instanceVariable
  | defaultVariable
  | objectConst
  | nativeParam
deriving DecidableEq, Repr

/-- Constants of a script. -/
inductive ConstKind
  | int
  | float
  | text
  | wideText
  | name
  | byte
  | shortInt
  | rotator
  | vector
deriving DecidableEq, Repr

/-- Expressions around one operand that carry nothing else. -/
inductive Wrapper
  | return
  | gotoLabel
  | eatString
  | boolVariable
  | length
deriving DecidableEq, Repr

/-- Expressions around two operands that carry nothing else. -/
inductive Pairing
  | assign
  | assignBool
  | dynArrayElement
  | arrayElement
deriving DecidableEq, Repr

/-- Evaluation of a member inside another object. -/
inductive ContextUse
  | object
  | classDefaults
deriving DecidableEq, Repr

/-- Expressions around one operand that carry a reference. -/
inductive TypedUse
  | metacast
  | dynamicCast
  | structMember
deriving DecidableEq, Repr

/-- Comparison of two structs. -/
inductive StructComparison
  | equal
  | notEqual
deriving DecidableEq, Repr

/-! ## Their opcodes -/

/-- The opcode of an expression that carries nothing. -/
def Atom.opcode : Atom → UInt8
  | stop => 0x08
  | nothing => 0x0B
  | endOfParams => 0x16
  | selfObject => 0x17
  | intZero => 0x25
  | intOne => 0x26
  | yes => 0x27
  | no => 0x28
  | noObject => 0x2A
  | iteratorPop => 0x30
  | iteratorNext => 0x31

/-- The opcode of an expression that carries one reference. -/
def RefUse.opcode : RefUse → UInt8
  | localVariable => 0x00
  | instanceVariable => 0x01
  | defaultVariable => 0x02
  | objectConst => 0x20
  | nativeParam => 0x29

/-- The opcode of a constant. -/
def ConstKind.opcode : ConstKind → UInt8
  | int => 0x1D
  | float => 0x1E
  | text => 0x1F
  | wideText => 0x34
  | name => 0x21
  | byte => 0x24
  | shortInt => 0x2C
  | rotator => 0x22
  | vector => 0x23

/-- The opcode of an expression around one operand. -/
def Wrapper.opcode : Wrapper → UInt8
  | .return => 0x04
  | gotoLabel => 0x0D
  | eatString => 0x0E
  | boolVariable => 0x2D
  | length => 0x37

/-- The opcode of an expression around two operands. -/
def Pairing.opcode : Pairing → UInt8
  | assign => 0x0F
  | assignBool => 0x14
  | dynArrayElement => 0x10
  | arrayElement => 0x1A

/-- The opcode of an evaluation inside another object. -/
def ContextUse.opcode : ContextUse → UInt8
  | object => 0x19
  | classDefaults => 0x12

/-- The opcode of an expression around one operand that carries a reference. -/
def TypedUse.opcode : TypedUse → UInt8
  | metacast => 0x13
  | dynamicCast => 0x2E
  | structMember => 0x36

/-- The opcode of a comparison of two structs. -/
def StructComparison.opcode : StructComparison → UInt8
  | equal => 0x32
  | notEqual => 0x33

/-- How to read the expression that an opcode begins. -/
inductive Op
  | atom (a : Atom)
  | reference (use : RefUse)
  | const (kind : ConstKind)
  | wrap (w : Wrapper)
  | pair (p : Pairing)
  | context (use : ContextUse)
  | typed (use : TypedUse)
  | compare (c : StructComparison)
  | switch
  | jump
  | jumpIfNot
  | assert
  | case
  | labelTable
  | new
  | skip
  | virtualFunction
  | finalFunction
  | globalFunction
  | iterator
  | conversion
  | remove
  | cast (name : String)
deriving DecidableEq, Repr

namespace Opcode

def switch : UInt8 := 0x05
def jump : UInt8 := 0x06
def jumpIfNot : UInt8 := 0x07
def assert : UInt8 := 0x09
def case : UInt8 := 0x0A
def labelTable : UInt8 := 0x0C
def new : UInt8 := 0x11
def skip : UInt8 := 0x18
def virtualFunction : UInt8 := 0x1B
def finalFunction : UInt8 := 0x1C
def iterator : UInt8 := 0x2F
def globalFunction : UInt8 := 0x38
def conversion : UInt8 := 0x39
def remove : UInt8 := 0x41

/-- The first opcode of native calls, and of those whose index takes a second byte. -/
def extendedNative : UInt8 := 0x60

/-- The least index of a native function, and the first opcode that is its own index. -/
def firstNative : Nat := 0x70

/-- The greatest index of a native function. -/
def lastNative : Nat := 0xFFF

end Opcode

/-- The opcodes of the main table, casts apart. -/
def opcodeTable : List (UInt8 × Op) :=
  List.flatten [
    [Atom.stop, .nothing, .endOfParams, .selfObject, .intZero, .intOne, .yes, .no, .noObject,
      .iteratorPop, .iteratorNext].map fun a => (a.opcode, .atom a),
    [RefUse.localVariable, .instanceVariable, .defaultVariable, .objectConst, .nativeParam].map
      fun u => (u.opcode, .reference u),
    [ConstKind.int, .float, .text, .wideText, .name, .byte, .shortInt, .rotator, .vector].map
      fun k => (k.opcode, .const k),
    [Wrapper.return, .gotoLabel, .eatString, .boolVariable, .length].map
      fun w => (w.opcode, .wrap w),
    [Pairing.assign, .assignBool, .dynArrayElement, .arrayElement].map
      fun p => (p.opcode, .pair p),
    [ContextUse.object, .classDefaults].map fun u => (u.opcode, .context u),
    [TypedUse.metacast, .dynamicCast, .structMember].map fun u => (u.opcode, .typed u),
    [StructComparison.equal, .notEqual].map fun c => (c.opcode, .compare c),
    [(Opcode.switch, .switch), (Opcode.jump, .jump), (Opcode.jumpIfNot, .jumpIfNot),
      (Opcode.assert, .assert), (Opcode.case, .case), (Opcode.labelTable, .labelTable),
      (Opcode.new, .new), (Opcode.skip, .skip), (Opcode.virtualFunction, .virtualFunction),
      (Opcode.finalFunction, .finalFunction), (Opcode.globalFunction, .globalFunction),
      (Opcode.iterator, .iterator), (Opcode.conversion, .conversion), (Opcode.remove, .remove)]]

/-- Whether only the extended revision has the expression. -/
def Op.isExtendedOnly : Op → Bool
  | compare _ => true
  | const .wideText => true
  | _ => false

/-! ## Casts -/

/-- The casts of the main table in the extended revision. -/
def mainCasts : List (UInt8 × String) := [
  (0x3A, "ByteToInt"), (0x3B, "ByteToBool"), (0x3C, "ByteToFloat"), (0x3D, "IntToByte"),
  (0x3E, "IntToBool"), (0x3F, "IntToFloat"), (0x40, "BoolToByte"), (0x42, "BoolToFloat"),
  (0x43, "FloatToByte"), (0x44, "FloatToInt"), (0x45, "FloatToBool"), (0x4A, "StringToInt"),
  (0x4B, "StringToBool"), (0x4C, "StringToFloat"), (0x4D, "StringToVector"),
  (0x4E, "StringToRotator"), (0x4F, "VectorToBool"), (0x50, "VectorToRotator"),
  (0x51, "RotatorToBool"), (0x52, "ByteToString"), (0x53, "IntToString"), (0x54, "BoolToString"),
  (0x55, "FloatToString"), (0x56, "ObjectToString"), (0x57, "NameToString"),
  (0x58, "VectorToString"), (0x59, "RotatorToString")]

/-- The casts of the main table that the legacy revision lacks. -/
def extendedOnlyCasts : List UInt8 := [0x3B, 0x42, 0x45, 0x4D, 0x4E, 0x4F, 0x51]

/-- The casts that the conversion table has instead of what the main table says. -/
def conversionCasts : ScriptFormat → List (UInt8 × String)
  | .legacy => [(0x41, "BoolToInt")]
  | .extended => [
    (0x41, "BoolToInt"), (0x5B, "IntToINT64"), (0x5C, "BoolToINT64"), (0x5E, "StringToINT64"),
    (0x60, "INT64ToInt"), (0x62, "INT64ToFloat"), (0x63, "INT64ToString")]

/-- The name of a cast of the main table. -/
def mainCastName? (format : ScriptFormat) (opcode : UInt8) : Option String :=
  if format = .legacy ∧ opcode ∈ extendedOnlyCasts then none else mainCasts.lookup opcode

/-- The name of a cast in a table. -/
def castName? (format : ScriptFormat) (table : OpcodeTable) (opcode : UInt8) : Option String :=
  match table, (conversionCasts format).lookup opcode with
  | .conversion, some name => some name
  | _, _ => mainCastName? format opcode

/-! ## Lookup -/

/-- What an opcode means in the main table. -/
def mainOp? (format : ScriptFormat) (opcode : UInt8) : Option Op :=
  match opcodeTable.lookup opcode with
  | some op => if format = .legacy ∧ op.isExtendedOnly then none else some op
  | none => (mainCastName? format opcode).map .cast

/-- What an opcode means in a table. -/
def lookupOp? (format : ScriptFormat) (table : OpcodeTable) (opcode : UInt8) : Option Op :=
  match table, (conversionCasts format).lookup opcode with
  | .conversion, some name => some (.cast name)
  | _, _ => mainOp? format opcode

end UnrealPackage.Script
