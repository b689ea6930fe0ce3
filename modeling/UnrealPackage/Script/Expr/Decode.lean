import UnrealPackage.Binary.Text
import UnrealPackage.Script.Expr.Basic
import UnrealPackage.Tables.Basic
/-!
# Reading scripts

The size of a script is what it takes in memory, where a compact integer always fills four bytes.
The reader therefore counts that size beside the bytes it consumes, and stops with the expression
that reaches the declared size. It counts in 32 bits, and begins again at zero behind the largest
number.

Expressions may be nested `nestingLimit` deep. Recursion is on the levels that are left; the loops
for arguments, labels and statements go on as long as bytes are left.
-/

namespace UnrealPackage.Script

/-- The deepest nesting of expressions that is read. -/
def nestingLimit : Nat := 128

/-- What a script has to be read against. -/
structure Context where
  tables : Tables
  natives : NativeTable
  format : ScriptFormat
  charset : Charset

/-- The bytes that are left, and the size in memory of what was read. -/
structure Position where
  rest : List UInt8
  used : UInt32

/-- A reader of script bytes that counts their size in memory. -/
abbrev ScriptDecode := StateT Position (Except Error)

namespace ScriptDecode

/-- A value that takes as many bytes in memory as in the image. -/
def plain (d : Decode α) : ScriptDecode α := fun p => do
  let (a, rest) ← d p.rest
  pure (a, ⟨rest, p.used + .ofNat (p.rest.length - rest.length)⟩)

/-- A value that takes four bytes in memory. -/
def wide (d : Decode α) : ScriptDecode α := fun p => do
  let (a, rest) ← d p.rest
  pure (a, ⟨rest, p.used + 4⟩)

def u8 : ScriptDecode UInt8 := plain Decode.u8
def u16 : ScriptDecode UInt16 := plain Decode.u16
def i32 : ScriptDecode Int32 := plain Decode.i32
def single : ScriptDecode Single := plain Decode.single
def compact : ScriptDecode Int32 := wide Decode.compact
def object : ScriptDecode ObjectRef := wide Decode.compactRef

/-- One more than the bytes that are left: more items than these cannot follow. -/
def itemBound : ScriptDecode Nat := do
  let p ← get
  pure (p.rest.length + 1)

end ScriptDecode

open ScriptDecode

/-- The constant of a kind. -/
def readConst (cs : Charset) : ConstKind → ScriptDecode Const
  | .int => Const.int <$> i32
  | .float => Const.float <$> single
  | .text => Const.text <$> plain (Decode.textUntilZero cs)
  | .wideText => Const.wideText <$> plain (Decode.wideTextUntilZero .malformedWideConstant)
  | .name => Const.name <$> compact
  | .byte => Const.byte <$> u8
  | .shortInt => Const.shortInt <$> u8
  | .rotator => do
    let pitch ← i32
    let yaw ← i32
    let roll ← i32
    pure (.rotator pitch yaw roll)
  | .vector => do
    let x ← single
    let y ← single
    let z ← single
    pure (.vector x y z)

/-- Labels up to the one whose name has the index `noneIndex`, which has to be in the table. -/
def readLabels (noneIndex : Option Nat) : Nat → ScriptDecode (List Label)
  | 0 => throw .truncated
  | bound + 1 => do
    let name ← compact
    let offset ← i32
    match noneIndex with
    | none => throw (.nameNotFound noneName)
    | some i =>
      if name = Int32.ofNat i then pure [⟨name, offset⟩]
      else
        let rest ← readLabels noneIndex bound
        pure (⟨name, offset⟩ :: rest)

/-- Arguments up to the end of the parameters, which is dropped. -/
def readParams (next : ScriptDecode Expr) : Nat → ScriptDecode (List Expr)
  | 0 => throw .truncated
  | bound + 1 => do
    match ← next with
    | .atom .endOfParams => pure []
    | param =>
      let rest ← readParams next bound
      pure (param :: rest)

/-- The end of the operands of the native operator `name`. -/
def readEndOfOperands (next : ScriptDecode Expr) (name : String) : ScriptDecode Unit := do
  match ← next with
  | .atom .endOfParams => pure ()
  | found => throw (.operandsNotEnded name found.kindName)

/-- The operands of a call of the native function, and the end of the parameters behind them. -/
def readNativeParams (next : ScriptDecode Expr) (function : NativeFunction) :
    ScriptDecode (List Expr) :=
  match function.shape with
  | .prefixOp | .postfixOp => do
    let operand ← next
    readEndOfOperands next function.name
    pure [operand]
  | .binaryOp => do
    let lhs ← next
    let rhs ← next
    readEndOfOperands next function.name
    pure [lhs, rhs]
  | .call => do readParams next (← itemBound)

/-- The index of a native call that begins with `opcode`. -/
def readNativeIndex (opcode : UInt8) : ScriptDecode Nat :=
  if opcode.toNat < Opcode.firstNative then
    (fun low => (opcode.toNat - Opcode.extendedNative.toNat) * 256 + low.toNat) <$> u8
  else pure opcode.toNat

/-- The rest of a native call that begins with `opcode`. -/
def readNative (natives : NativeTable) (next : ScriptDecode Expr) (opcode : UInt8) :
    ScriptDecode Expr := do
  let index ← readNativeIndex opcode
  if index < Opcode.firstNative then throw (.invalidNativeIndex index opcode)
  let function ← liftM (natives index)
  let params ← readNativeParams next function
  pure (.call (.native function) params)

/-- The rest of an expression that begins with `opcode`, its operands read by `next`, the operand of
a conversion by `converted`. -/
def readOperands (ctx : Context) (next converted : ScriptDecode Expr) (opcode : UInt8) :
    Op → ScriptDecode Expr
  | .atom a => pure (.atom a)
  | .reference use => Expr.reference use <$> object
  | .const kind => Expr.const <$> readConst ctx.charset kind
  | .wrap w => Expr.wrap w <$> next
  | .pair p => do
    let first ← next
    let second ← next
    pure (.pair p first second)
  | .context use => do
    let object ← next
    let skip ← u16
    let size ← u8
    let member ← next
    pure (.context use object skip size member)
  | .typed use => do
    let type ← object
    let operand ← next
    pure (.typed use type operand)
  | .compare c => do
    let struct ← object
    let lhs ← next
    let rhs ← next
    pure (.compare c struct lhs rhs)
  | .switch => do
    let size ← u8
    let value ← next
    pure (.switch size value)
  | .jump => Expr.jump <$> u16
  | .jumpIfNot => do
    let offset ← u16
    let condition ← next
    pure (.jumpIfNot offset condition)
  | .assert => do
    let line ← u16
    let debug ← u8
    let condition ← next
    pure (.assert line debug condition)
  | .case => do
    let offset ← u16
    if offset = defaultCaseOffset then pure (.caseElse offset)
    else
      let value ← next
      pure (.caseOf offset value)
  | .labelTable => do
    let labels ← readLabels (ctx.tables.nameIndex? noneName) (← itemBound)
    pure (.labelTable labels)
  | .new => do
    let outer ← next
    let name ← next
    let flags ← next
    let type ← next
    pure (.new outer name flags type)
  | .skip => do
    let size ← u16
    let operand ← next
    pure (.skip size operand)
  | .virtualFunction => do
    let name ← compact
    let params ← readParams next (← itemBound)
    pure (.call (.virtualFunction name) params)
  | .globalFunction => do
    let name ← compact
    let params ← readParams next (← itemBound)
    pure (.call (.globalFunction name) params)
  | .finalFunction => do
    let function ← object
    let params ← readParams next (← itemBound)
    pure (.call (.finalFunction function) params)
  | .iterator => do
    let operand ← next
    let stop ← u16
    pure (.iterator operand stop)
  | .conversion => Expr.conversion <$> converted
  | .cast name => Expr.cast opcode name <$> next
  | .remove => do
    let array ← next
    let index ← next
    let count ← next
    pure (.remove array index count)

/-- An expression whose opcodes are looked up in `table`, with `levels` of nesting left. Operands
are read with the same table, but for the operand of a conversion. -/
def readExpr (ctx : Context) : Nat → OpcodeTable → ScriptDecode Expr
  | 0, _ => throw (.expressionTooDeep nestingLimit)
  | levels + 1, table => do
    let opcode ← u8
    match lookupOp? ctx.format table opcode with
    | some op =>
      readOperands ctx (readExpr ctx levels table) (readExpr ctx levels .conversion) opcode op
    | none =>
      if Opcode.extendedNative ≤ opcode then
        readNative ctx.natives (readExpr ctx levels table) opcode
      else throw (.unknownOpcode opcode table.label)

/-- Statements until `size` bytes in memory are used. -/
def readStatements (ctx : Context) (size : UInt32) : Nat → ScriptDecode (List Expr)
  | 0 => throw .truncated
  | bound + 1 => do
    let p ← get
    if size ≤ p.used then pure []
    else
      let statement ← readExpr ctx nestingLimit .main
      let rest ← readStatements ctx size bound
      pure (statement :: rest)

/-- A script that takes `size` bytes in memory, with the size that was really used. -/
def decodeSized (ctx : Context) (size : UInt32) : Decode (List Expr × UInt32) := fun input => do
  let (statements, p) ← readStatements ctx size (input.length + 1) ⟨input, 0⟩
  pure ((statements, p.used), p.rest)

/-- A script that takes `size` bytes in memory. -/
def decode (ctx : Context) (size : UInt32) : Decode (List Expr) :=
  Prod.fst <$> decodeSized ctx size

end UnrealPackage.Script
