import UnrealPackage.Error
/-!
# Native functions

A native call in a script carries only an index. A `NativeTable` gives the function behind it: its
name and whether it is an operator, which decides how many operands follow.
-/

namespace UnrealPackage.Script

/-- A function implemented outside the script. -/
structure NativeFunction where
  index : Nat
  name : String
  /-- Whether it is an operator written before its operand. -/
  preOperator : Bool := false
  /-- How tightly it binds as an operator, the tightest least. -/
  precedence : UInt8 := 0
  /-- Whether it is an operator. -/
  isOperator : Bool := false
deriving DecidableEq, Repr

/-- How a native call lays out its operands. -/
inductive CallShape
  /-- One operand, the operator before it. -/
  | prefixOp
  /-- One operand, the operator behind it. -/
  | postfixOp
  /-- Two operands around the operator. -/
  | binaryOp
  /-- Any number of arguments. -/
  | call
deriving DecidableEq, Repr

/-- The layout of a function's calls. An operator without precedence stands behind its operand. -/
def NativeFunction.shape (f : NativeFunction) : CallShape :=
  if f.preOperator then .prefixOp
  else if f.isOperator then if f.precedence = 0 then .postfixOp else .binaryOp
  else .call

/-- Gives the native function of an index. -/
abbrev NativeTable := Nat → Except Error NativeFunction

namespace NativeTable

/-- The table without entries. -/
def none : NativeTable := fun index => .error (.unknownNative index)

/-- Takes every index for an ordinary function named after it. -/
def any : NativeTable := fun index =>
  .ok { index, name := "Native" ++ toString index }

/-- A list of functions, with another table for the indices that are not in it. -/
def ofList (functions : List NativeFunction) (fallback : NativeTable) : NativeTable := fun index =>
  match functions.find? (·.index == index) with
  | some f => .ok f
  | Option.none => fallback index

end NativeTable

/-- The list with a function added in place of the one that has its index. -/
def insertNative (functions : List NativeFunction) (f : NativeFunction) : List NativeFunction :=
  functions.filter (·.index != f.index) ++ [f]

end UnrealPackage.Script
