import UnrealPackage.Decimal.Shortest
import UnrealPackage.Script.Opcode
import UnrealPackage.Tables.Entry
/-!
# Script expressions

A script is a list of expressions, one for each statement. Objects and names stay references and
indices; offsets are positions in the same script as it lies in memory.
-/

namespace UnrealPackage.Script

/-- A place in a script that a state can jump to by name. -/
structure Label where
  name : NameIndex
  offset : Int32
deriving DecidableEq, Repr

/-- A constant of a script. -/
inductive Const
  | int (value : Int32)
  | float (value : Single)
  | text (value : String)
  | wideText (value : String)
  | name (index : NameIndex)
  | byte (value : UInt8)
  | shortInt (value : UInt8)
  | rotator (pitch yaw roll : Int32)
  | vector (x y z : Single)
deriving DecidableEq, Repr

/-- What kind of constant it is. -/
def Const.kind : Const → ConstKind
  | int _ => .int
  | float _ => .float
  | text _ => .text
  | wideText _ => .wideText
  | name _ => .name
  | byte _ => .byte
  | shortInt _ => .shortInt
  | rotator .. => .rotator
  | vector .. => .vector

/-- What a call calls. -/
inductive Callee
  /-- A function looked up by name in the object. -/
  | virtualFunction (name : NameIndex)
  /-- A function looked up by name outside the object's state. -/
  | globalFunction (name : NameIndex)
  /-- One certain function. -/
  | finalFunction (function : ObjectRef)
  /-- A function outside the script. -/
  | native (function : NativeFunction)
deriving DecidableEq, Repr

/-- An expression of a script. -/
inductive Expr
  | atom (a : Atom)
  | reference (use : RefUse) (object : ObjectRef)
  | const (value : Const)
  | wrap (w : Wrapper) (operand : Expr)
  | pair (p : Pairing) (first second : Expr)
  | context (use : ContextUse) (object : Expr) (skip : UInt16) (size : UInt8) (member : Expr)
  | typed (use : TypedUse) (type : ObjectRef) (operand : Expr)
  | compare (c : StructComparison) (struct : ObjectRef) (lhs rhs : Expr)
  | switch (size : UInt8) (value : Expr)
  | jump (offset : UInt16)
  | jumpIfNot (offset : UInt16) (condition : Expr)
  | assert (line : UInt16) (debug : UInt8) (condition : Expr)
  /-- A case with the value that selects it. -/
  | caseOf (offset : UInt16) (value : Expr)
  /-- A case without a value, which is the default if its offset is `defaultCaseOffset`. -/
  | caseElse (offset : UInt16)
  /-- Named places; the list ends with an entry named `None`, which is kept. -/
  | labelTable (labels : List Label)
  | new (outer name flags type : Expr)
  | skip (size : UInt16) (operand : Expr)
  | call (callee : Callee) (params : List Expr)
  | iterator (operand : Expr) (stop : UInt16)
  /-- An expression whose opcodes are from the conversion table. -/
  | conversion (operand : Expr)
  | cast (opcode : UInt8) (name : String) (operand : Expr)
  | remove (array index count : Expr)
deriving Repr

instance : Inhabited Expr := ⟨.atom .nothing⟩

/-- The offset that marks the default case of a switch. -/
def defaultCaseOffset : UInt16 := 0xFFFF

namespace Expr

/-- Whether the expression stands for an argument that was left out. -/
def isNothing : Expr → Bool
  | atom .nothing => true
  | _ => false

/-- The positions in the script to which the expression itself may pass control. -/
def branchOffsets : Expr → List Nat
  | jump offset => [offset.toNat]
  | jumpIfNot offset _ => [offset.toNat]
  | caseOf offset _ => if offset = defaultCaseOffset then [] else [offset.toNat]
  | caseElse offset => if offset = defaultCaseOffset then [] else [offset.toNat]
  | iterator _ stop => [stop.toNat]
  | labelTable labels =>
    (labels.filter fun l => 0 ≤ l.offset.toInt).map fun l => l.offset.toInt.toNat
  | _ => []

/-- The word for the kind of an expression. -/
def kindName : Expr → String
  | atom .stop => "Stop"
  | atom .nothing => "Nothing"
  | atom .endOfParams => "EndFunctionParams"
  | atom .selfObject => "SelfObject"
  | atom .intZero => "IntZero"
  | atom .intOne => "IntOne"
  | atom .yes => "True"
  | atom .no => "False"
  | atom .noObject => "NoObject"
  | atom .iteratorPop => "IteratorPop"
  | atom .iteratorNext => "IteratorNext"
  | reference .localVariable _ => "LocalVariable"
  | reference .instanceVariable _ => "InstanceVariable"
  | reference .defaultVariable _ => "DefaultVariable"
  | reference .objectConst _ => "ObjectConst"
  | reference .nativeParam _ => "NativeParam"
  | const (.int _) => "IntConst"
  | const (.float _) => "FloatConst"
  | const (.text _) => "StringConst"
  | const (.wideText _) => "UnicodeStringConst"
  | const (.name _) => "NameConst"
  | const (.byte _) => "ByteConst"
  | const (.shortInt _) => "IntConstByte"
  | const (.rotator ..) => "RotatorConst"
  | const (.vector ..) => "VectorConst"
  | wrap .return _ => "Return"
  | wrap .gotoLabel _ => "GotoLabel"
  | wrap .eatString _ => "EatString"
  | wrap .boolVariable _ => "BoolVariable"
  | wrap .length _ => "Length"
  | pair .assign .. => "Let"
  | pair .assignBool .. => "LetBool"
  | pair .dynArrayElement .. => "DynArrayElement"
  | pair .arrayElement .. => "ArrayElement"
  | context .object .. => "Context"
  | context .classDefaults .. => "ClassContext"
  | typed .metacast .. => "Metacast"
  | typed .dynamicCast .. => "DynamicCast"
  | typed .structMember .. => "StructMember"
  | compare .equal .. => "StructCmpEq"
  | compare .notEqual .. => "StructCmpNe"
  | switch .. => "Switch"
  | jump _ => "Jump"
  | jumpIfNot .. => "JumpIfNot"
  | assert .. => "Assert"
  | caseOf .. => "Case"
  | caseElse _ => "Case"
  | labelTable _ => "LabelTable"
  | new .. => "New"
  | skip .. => "Skip"
  | call (.virtualFunction _) _ => "VirtualFunction"
  | call (.globalFunction _) _ => "GlobalFunction"
  | call (.finalFunction _) _ => "FinalFunction"
  | call (.native _) _ => "NativeCall"
  | iterator .. => "Iterator"
  | conversion _ => "Conversion"
  | cast .. => "Cast"
  | remove .. => "Remove"

end Expr

end UnrealPackage.Script
