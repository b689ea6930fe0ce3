import UnrealPackage.Decimal.Layout
import UnrealPackage.Script.Expr.Basic
import UnrealPackage.Tables.FullName
/-!
# Scripts as text

One line for each statement, with objects and names by their short names. Operators stand between
their operands; brackets go around an operand that is an operation binding less tightly, or equally
tightly on the right. Arguments left out at the end of a call are not written, one left out before
another keeps its place between the commas.
-/

namespace UnrealPackage.Script

/-- Floating-point numbers in scripts: in full from 0.0001 up to sixteen digits before the point,
otherwise with an exponent, which has no sign if it is positive. -/
def floatLayout : FloatLayout where
  tie := .upward
  fullFrom := -4
  fullTo := 15
  plusSign := false
  notANumber := "NaN"
  infinity := "inf"
  negativeInfinity := "-inf"

/-- A floating-point number as it stands in a script. -/
def floatText (x : Single) : String :=
  x.show floatLayout

/-- An offset in at least four hexadecimal digits. -/
def offsetText (offset : Nat) : String :=
  hexPadded 4 offset

/-- Whether the name of an operator is a word, so that it needs a space beside it. -/
def isWord (name : String) : Bool :=
  name.toList.head?.any fun c => c.isAlpha

/-- The characters behind the last occurrence of `To`. -/
def afterLastTo : List Char → Option (List Char)
  | [] => none
  | 'T' :: 'o' :: rest => some ((afterLastTo rest).getD rest)
  | _ :: rest => afterLastTo rest

/-- The type that a cast leads to. -/
def castTarget (name : String) : String :=
  foldCase (String.ofList ((afterLastTo name.toList).getD name.toList))

/-- The entries of a label table before the one named `None`. -/
def labelTexts (t : Tables) : List Label → Except Error (List String)
  | [] => pure []
  | l :: ls => do
    let name ← t.name l.name
    if sameName name noneName then pure []
    else
      let rest ← labelTexts t ls
      pure ((name ++ "@" ++ offsetText l.offset.toUInt32.toNat) :: rest)

/-- A constant. -/
def Const.render (t : Tables) : Const → Except Error String
  | int v => pure (toString v.toInt)
  | float v => pure (floatText v)
  | text s => pure (quoted s)
  | wideText s => pure (quoted s)
  | name n => do
    let name ← t.name n
    pure ("'" ++ name ++ "'")
  | byte v => pure (toString v.toNat)
  | shortInt v => pure (toString v.toNat)
  | rotator pitch yaw roll =>
    pure ("rot(" ++ ", ".intercalate ([pitch, yaw, roll].map fun v => toString v.toInt) ++ ")")
  | vector x y z => pure ("vect(" ++ ", ".intercalate ([x, y, z].map floatText) ++ ")")

/-- An expression that carries one reference. -/
def RefUse.render (t : Tables) (object : ObjectRef) : RefUse → Except Error String
  | defaultVariable => do
    let name ← t.objectName object
    pure ("Default." ++ name)
  | objectConst => do
    let type ← t.objectClassName object
    let name ← t.objectFullName object
    pure (type ++ "'" ++ name ++ "'")
  | _ => t.objectName object

/-- An expression that carries nothing. -/
def Atom.render : Atom → String
  | stop => "stop"
  | nothing => ""
  | endOfParams => ""
  | selfObject => "self"
  | intZero => "0"
  | intOne => "1"
  | yes => "true"
  | no => "false"
  | noObject => "none"
  | iteratorPop => "pop iterator"
  | iteratorNext => "next iterator"

/-- The precedence of an expression that is written with an operator between two operands. -/
def Expr.binaryPrecedence? : Expr → Option UInt8
  | .call (.native f) _ => if f.shape = .binaryOp then some f.precedence else none
  | .conversion operand => operand.binaryPrecedence?
  | _ => none

/-- Text in brackets if `b`. -/
def bracketedIf (b : Bool) (s : String) : String :=
  if b then "(" ++ s ++ ")" else s

/-- The operand of a unary operator. -/
def unaryOperand (operand : Expr) (text : String) : String :=
  bracketedIf operand.binaryPrecedence?.isSome text

/-- The left operand of a binary operator. -/
def leftOperand (precedence : UInt8) (operand : Expr) (text : String) : String :=
  bracketedIf (operand.binaryPrecedence?.any (precedence < ·)) text

/-- The right operand of a binary operator. -/
def rightOperand (precedence : UInt8) (operand : Expr) (text : String) : String :=
  bracketedIf (operand.binaryPrecedence?.any (precedence ≤ ·)) text

/-- How many arguments are written: all up to the last that was not left out. -/
def writtenCount (params : List Expr) : Nat :=
  (params.reverse.dropWhile Expr.isNothing).length

/-- The arguments of a call between commas. -/
def argumentText (params : List Expr) (texts : List String) : String :=
  ", ".intercalate (texts.take (writtenCount params))

/-- A native call: an operator with its operands, or a name with arguments. -/
def nativeText (f : NativeFunction) (params : List Expr) (texts : List String) : String :=
  match f.shape, params, texts with
  | .prefixOp, [operand], [text] =>
    f.name ++ (if isWord f.name then " " else "") ++ unaryOperand operand text
  | .postfixOp, [operand], [text] =>
    unaryOperand operand text ++ (if isWord f.name then " " else "") ++ f.name
  | .binaryOp, [lhs, rhs], [left, right] =>
    leftOperand f.precedence lhs left ++ " " ++ f.name ++ " " ++
      rightOperand f.precedence rhs right
  | _, _, _ => f.name ++ "(" ++ argumentText params texts ++ ")"

/-- What stands before the arguments of a call that is no native one. -/
def Callee.render (t : Tables) : Callee → Except Error String
  | virtualFunction name => t.name name
  | globalFunction name => do
    let name ← t.name name
    pure ("global." ++ name)
  | finalFunction function => t.objectName function
  | native function => pure function.name

mutual

/-- The text of an expression. -/
def Expr.render (t : Tables) : Expr → Except Error String
  | .atom a => pure a.render
  | .reference use object => use.render t object
  | .const c => c.render t
  | .wrap w operand => do
    let text ← operand.render t
    pure (match w with
      | .return => if operand.isNothing then "return" else "return " ++ text
      | .gotoLabel => "goto " ++ text
      | .eatString => text
      | .boolVariable => text
      | .length => text ++ ".Length")
  | .pair .assign target value => do
    let target ← target.render t
    let value ← value.render t
    pure (target ++ " = " ++ value)
  | .pair .assignBool target value => do
    let target ← target.render t
    let value ← value.render t
    pure (target ++ " = " ++ value)
  | .pair .dynArrayElement index array => do
    let array ← array.render t
    let index ← index.render t
    pure (array ++ "[" ++ index ++ "]")
  | .pair .arrayElement index array => do
    let array ← array.render t
    let index ← index.render t
    pure (array ++ "[" ++ index ++ "]")
  | .context _ object _ _ member => do
    let object ← object.render t
    let member ← member.render t
    pure (object ++ "." ++ member)
  | .typed .metacast type operand => do
    let type ← t.objectName type
    let operand ← operand.render t
    pure ("class<" ++ type ++ ">(" ++ operand ++ ")")
  | .typed .dynamicCast type operand => do
    let type ← t.objectName type
    let operand ← operand.render t
    pure (type ++ "(" ++ operand ++ ")")
  | .typed .structMember property operand => do
    let operand ← operand.render t
    let property ← t.objectName property
    pure (operand ++ "." ++ property)
  | .compare c _ lhs rhs => do
    let lhs ← lhs.render t
    let rhs ← rhs.render t
    pure (lhs ++ (match c with | .equal => " == " | .notEqual => " != ") ++ rhs)
  | .switch _ value => do
    let value ← value.render t
    pure ("switch (" ++ value ++ ")")
  | .jump offset => pure ("goto " ++ offsetText offset.toNat)
  | .jumpIfNot offset condition => do
    let condition ← condition.render t
    pure ("if (!" ++ condition ++ ") goto " ++ offsetText offset.toNat)
  | .assert _ _ condition => do
    let condition ← condition.render t
    pure ("assert(" ++ condition ++ ")")
  | .caseOf _ value => do
    let value ← value.render t
    pure ("case " ++ value ++ ":")
  | .caseElse _ => pure "default:"
  | .labelTable labels => do
    let texts ← labelTexts t labels
    pure ("labels " ++ ", ".intercalate texts)
  | .new outer name flags type => do
    let outerText ← outer.render t
    let nameText ← name.render t
    let flagsText ← flags.render t
    let args := argumentText [outer, name, flags] [outerText, nameText, flagsText]
    let type ← type.render t
    pure (if args.isEmpty then "new " ++ type else "new(" ++ args ++ ") " ++ type)
  | .skip _ operand => operand.render t
  | .call callee params => do
    let calleeText ← callee.render t
    let texts ← Expr.renderAll t params
    pure (match callee with
      | .native f => nativeText f params texts
      | _ => calleeText ++ "(" ++ argumentText params texts ++ ")")
  | .iterator operand _ => do
    let operand ← operand.render t
    pure ("foreach " ++ operand)
  | .conversion operand => operand.render t
  | .cast _ name operand => do
    let operand ← operand.render t
    pure (castTarget name ++ "(" ++ operand ++ ")")
  | .remove array index count => do
    let array ← array.render t
    let index ← index.render t
    let count ← count.render t
    pure (array ++ ".Remove(" ++ index ++ ", " ++ count ++ ")")

/-- The texts of expressions in a row. -/
def Expr.renderAll (t : Tables) : List Expr → Except Error (List String)
  | [] => pure []
  | e :: es => do
    let first ← e.render t
    let rest ← Expr.renderAll t es
    pure (first :: rest)

end

/-- One line for each statement of a script. -/
def lines (t : Tables) (statements : List Expr) : Except Error (List String) :=
  Expr.renderAll t statements

end UnrealPackage.Script
