import UnrealPackage.Binary.Text
import UnrealPackage.Script.Expr.Basic
/-!
# Writing scripts

The bytes of an expression, and apart from them the size that it takes in memory, where a compact
integer fills four bytes. Calls end with `Atom.endOfParams`, which is no argument.
-/

namespace UnrealPackage.Script

namespace Const

/-- A constant behind its opcode. -/
def encode (cs : Charset) : Const → List UInt8
  | int v => Encode.i32 v
  | float v => Encode.single v
  | text s => Encode.textUntilZero cs s
  | wideText s => Encode.wideTextUntilZero s
  | name n => Encode.compact n
  | byte v => [v]
  | shortInt v => [v]
  | rotator pitch yaw roll => Encode.i32 pitch ++ Encode.i32 yaw ++ Encode.i32 roll
  | vector x y z => Encode.single x ++ Encode.single y ++ Encode.single z

/-- What a constant takes in memory behind its opcode. -/
def loadedSize (cs : Charset) : Const → Nat
  | name _ => 4
  | c => (c.encode cs).length

end Const

namespace Callee

/-- The opcode of a call with what tells the function. -/
def encode : Callee → Except Error (List UInt8)
  | virtualFunction name => pure (Opcode.virtualFunction :: Encode.compact name)
  | globalFunction name => pure (Opcode.globalFunction :: Encode.compact name)
  | finalFunction function => pure (Opcode.finalFunction :: Encode.compactRef function)
  | native function =>
    if function.index < Opcode.firstNative ∨ Opcode.lastNative < function.index then
      throw (.nativeIndexTooLarge function.index)
    else if 0xFF < function.index then
      pure [(Opcode.extendedNative.toNat + function.index / 256).toUInt8,
        (function.index % 256).toUInt8]
    else pure [function.index.toUInt8]

/-- What the opcode of a call and what tells the function take in memory. -/
def loadedSize : Callee → Nat
  | native function => if 0xFF < function.index then 2 else 1
  | _ => 5

end Callee

/-- An entry of a label table. -/
def Label.encode (l : Label) : List UInt8 :=
  Encode.compact l.name ++ Encode.i32 l.offset

mutual

/-- The bytes of an expression. -/
def Expr.encode (cs : Charset) : Expr → Except Error (List UInt8)
  | .atom a => pure [a.opcode]
  | .reference use object => pure (use.opcode :: Encode.compactRef object)
  | .const c => pure (c.kind.opcode :: c.encode cs)
  | .wrap w operand => do
    let operand ← operand.encode cs
    pure (w.opcode :: operand)
  | .pair p first second => do
    let first ← first.encode cs
    let second ← second.encode cs
    pure (p.opcode :: first ++ second)
  | .context use object skipped size member => do
    let object ← object.encode cs
    let member ← member.encode cs
    pure (use.opcode :: object ++ Encode.u16 skipped ++ [size] ++ member)
  | .typed use type operand => do
    let operand ← operand.encode cs
    pure (use.opcode :: Encode.compactRef type ++ operand)
  | .compare c struct lhs rhs => do
    let lhs ← lhs.encode cs
    let rhs ← rhs.encode cs
    pure (c.opcode :: Encode.compactRef struct ++ lhs ++ rhs)
  | .switch size value => do
    let value ← value.encode cs
    pure (Opcode.switch :: size :: value)
  | .jump offset => pure (Opcode.jump :: Encode.u16 offset)
  | .jumpIfNot offset condition => do
    let condition ← condition.encode cs
    pure (Opcode.jumpIfNot :: Encode.u16 offset ++ condition)
  | .assert line debug condition => do
    let condition ← condition.encode cs
    pure (Opcode.assert :: Encode.u16 line ++ [debug] ++ condition)
  | .caseOf offset value => do
    if offset = defaultCaseOffset then throw .defaultCaseHasValue
    let value ← value.encode cs
    pure (Opcode.case :: Encode.u16 offset ++ value)
  | .caseElse offset =>
    if offset = defaultCaseOffset then pure (Opcode.case :: Encode.u16 offset)
    else throw (.caseWithoutValue offset)
  | .labelTable labels => pure (Opcode.labelTable :: labels.flatMap Label.encode)
  | .new outer name flags type => do
    let outer ← outer.encode cs
    let name ← name.encode cs
    let flags ← flags.encode cs
    let type ← type.encode cs
    pure (Opcode.new :: outer ++ name ++ flags ++ type)
  | .skip size operand => do
    let operand ← operand.encode cs
    pure (Opcode.skip :: Encode.u16 size ++ operand)
  | .call callee params => do
    let callee ← callee.encode
    let params ← Expr.encodeAll cs params
    pure (callee ++ params ++ [Atom.endOfParams.opcode])
  | .iterator operand stop => do
    let operand ← operand.encode cs
    pure (Opcode.iterator :: operand ++ Encode.u16 stop)
  | .conversion operand => do
    let operand ← operand.encode cs
    pure (Opcode.conversion :: operand)
  | .cast opcode _ operand => do
    let operand ← operand.encode cs
    pure (opcode :: operand)
  | .remove array index count => do
    let array ← array.encode cs
    let index ← index.encode cs
    let count ← count.encode cs
    pure (Opcode.remove :: array ++ index ++ count)

/-- The bytes of expressions in a row. -/
def Expr.encodeAll (cs : Charset) : List Expr → Except Error (List UInt8)
  | [] => pure []
  | e :: es => do
    let first ← e.encode cs
    let rest ← Expr.encodeAll cs es
    pure (first ++ rest)

end

mutual

/-- What an expression takes in memory. -/
def Expr.loadedSize (cs : Charset) : Expr → Nat
  | .atom _ => 1
  | .reference _ _ => 5
  | .const c => 1 + c.loadedSize cs
  | .wrap _ operand => 1 + operand.loadedSize cs
  | .pair _ first second => 1 + first.loadedSize cs + second.loadedSize cs
  | .context _ object _ _ member => 1 + object.loadedSize cs + 3 + member.loadedSize cs
  | .typed _ _ operand => 5 + operand.loadedSize cs
  | .compare _ _ lhs rhs => 5 + lhs.loadedSize cs + rhs.loadedSize cs
  | .switch _ value => 2 + value.loadedSize cs
  | .jump _ => 3
  | .jumpIfNot _ condition => 3 + condition.loadedSize cs
  | .assert _ _ condition => 4 + condition.loadedSize cs
  | .caseOf _ value => 3 + value.loadedSize cs
  | .caseElse _ => 3
  | .labelTable labels => 1 + 8 * labels.length
  | .new outer name flags type =>
    1 + outer.loadedSize cs + name.loadedSize cs + flags.loadedSize cs + type.loadedSize cs
  | .skip _ operand => 3 + operand.loadedSize cs
  | .call callee params => callee.loadedSize + Expr.loadedSizeAll cs params + 1
  | .iterator operand _ => 1 + operand.loadedSize cs + 2
  | .conversion operand => 1 + operand.loadedSize cs
  | .cast _ _ operand => 1 + operand.loadedSize cs
  | .remove array index count =>
    1 + array.loadedSize cs + index.loadedSize cs + count.loadedSize cs

/-- What expressions in a row take in memory. -/
def Expr.loadedSizeAll (cs : Charset) : List Expr → Nat
  | [] => 0
  | e :: es => e.loadedSize cs + Expr.loadedSizeAll cs es

end

/-- The bytes of a script, with the size that it takes in memory, counted in 32 bits. -/
def encodeSized (cs : Charset) (statements : List Expr) : Except Error (List UInt8 × UInt32) := do
  let bytes ← Expr.encodeAll cs statements
  pure (bytes, .ofNat (Expr.loadedSizeAll cs statements))

end UnrealPackage.Script
