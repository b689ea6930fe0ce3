import UnrealPackage.Proofs.Script.Reads
/-!
# Well-formed expressions

What an expression has to be like for its bytes to mean that expression. Writing never looks at the
opcode table: it gives a cast the opcode that the expression carries, and takes any function for a
native. `Expr.WellFormed ctx table` says that reading with `table` active takes every opcode that is
written for what it was written for; the table is handed on to the operands, except to the operand
of a conversion, which is judged in the conversion table.

`Expr.height` is how deeply the reader nests. The end of the parameters of a call is read as an
expression of its own, so a call without parameters has the height two.
-/

namespace UnrealPackage.Script

namespace Expr

/-- Whether the expression would be taken for the end of the parameters. -/
def isEnd : Expr → Bool
  | atom .endOfParams => true
  | _ => false

end Expr

/-- Whether the opcode is read as `op` in the active table. -/
def Means (ctx : Context) (table : OpcodeTable) (opcode : UInt8) (op : Op) : Prop :=
  lookupOp? ctx.format table opcode = some op

instance (ctx : Context) (table : OpcodeTable) (opcode : UInt8) (op : Op) :
    Decidable (Means ctx table opcode op) :=
  inferInstanceAs (Decidable (_ = _))

/-- The first byte of a native call. -/
def NativeFunction.opcode (f : NativeFunction) : UInt8 :=
  if 0xFF < f.index then (Opcode.extendedNative.toNat + f.index / 256).toUInt8
  else f.index.toUInt8

/-- Whether as many operands follow as the layout of a native call says. Arguments of an ordinary
call are as many as come before the end of the parameters. -/
def CallShape.Takes (params : List Expr) : CallShape → Prop
  | prefixOp | postfixOp => params.length = 1
  | binaryOp => params.length = 2
  | call => ∀ param ∈ params, param.isEnd = false

/-- Whether a call is read with the callee and the parameters that it was written with. A native
function has to be the one of its index, and its first byte none of the opcodes of the table. -/
def Callee.Fits (ctx : Context) (table : OpcodeTable) (params : List Expr) : Callee → Prop
  | virtualFunction _ =>
    Means ctx table Opcode.virtualFunction .virtualFunction ∧ CallShape.call.Takes params
  | globalFunction _ =>
    Means ctx table Opcode.globalFunction .globalFunction ∧ CallShape.call.Takes params
  | finalFunction _ =>
    Means ctx table Opcode.finalFunction .finalFunction ∧ CallShape.call.Takes params
  | native f =>
    ctx.natives f.index = .ok f ∧ Opcode.firstNative ≤ f.index ∧ f.index ≤ Opcode.lastNative ∧
      lookupOp? ctx.format table f.opcode = none ∧ f.shape.Takes params

mutual

/-- Whether every opcode that is written for the expression is read as what it was written for, and
every value that it carries can be stored. -/
def Expr.WellFormed (ctx : Context) : OpcodeTable → Expr → Prop
  | table, .atom a => Means ctx table a.opcode (.atom a)
  | table, .reference use _ => Means ctx table use.opcode (.reference use)
  | table, .const c => Means ctx table c.kind.opcode (.const c.kind) ∧ c.Storable ctx.charset
  | table, .wrap w operand => Means ctx table w.opcode (.wrap w) ∧ operand.WellFormed ctx table
  | table, .pair p first second =>
    Means ctx table p.opcode (.pair p) ∧ first.WellFormed ctx table ∧ second.WellFormed ctx table
  | table, .context use object _ _ member =>
    Means ctx table use.opcode (.context use) ∧ object.WellFormed ctx table ∧
      member.WellFormed ctx table
  | table, .typed use _ operand =>
    Means ctx table use.opcode (.typed use) ∧ operand.WellFormed ctx table
  | table, .compare c _ lhs rhs =>
    Means ctx table c.opcode (.compare c) ∧ lhs.WellFormed ctx table ∧ rhs.WellFormed ctx table
  | table, .switch _ value => Means ctx table Opcode.switch .switch ∧ value.WellFormed ctx table
  | table, .jump _ => Means ctx table Opcode.jump .jump
  | table, .jumpIfNot _ condition =>
    Means ctx table Opcode.jumpIfNot .jumpIfNot ∧ condition.WellFormed ctx table
  | table, .assert _ _ condition =>
    Means ctx table Opcode.assert .assert ∧ condition.WellFormed ctx table
  | table, .caseOf offset value =>
    Means ctx table Opcode.case .case ∧ offset ≠ defaultCaseOffset ∧ value.WellFormed ctx table
  | table, .caseElse offset => Means ctx table Opcode.case .case ∧ offset = defaultCaseOffset
  | table, .labelTable labels =>
    Means ctx table Opcode.labelTable .labelTable ∧
      ∃ i, ctx.tables.nameIndex? noneName = some i ∧ EndsWith (Int32.ofNat i) labels
  | table, .new outer name flags type =>
    Means ctx table Opcode.new .new ∧ outer.WellFormed ctx table ∧ name.WellFormed ctx table ∧
      flags.WellFormed ctx table ∧ type.WellFormed ctx table
  | table, .skip _ operand => Means ctx table Opcode.skip .skip ∧ operand.WellFormed ctx table
  | table, .call callee params => callee.Fits ctx table params ∧ Expr.WellFormedAll ctx table params
  | table, .iterator operand _ =>
    Means ctx table Opcode.iterator .iterator ∧ operand.WellFormed ctx table
  | table, .conversion operand =>
    Means ctx table Opcode.conversion .conversion ∧ operand.WellFormed ctx .conversion
  | table, .cast opcode name operand =>
    Means ctx table opcode (.cast name) ∧ operand.WellFormed ctx table
  | table, .remove array index count =>
    Means ctx table Opcode.remove .remove ∧ array.WellFormed ctx table ∧
      index.WellFormed ctx table ∧ count.WellFormed ctx table

/-- Whether each of the expressions is well-formed. -/
def Expr.WellFormedAll (ctx : Context) (table : OpcodeTable) : List Expr → Prop
  | [] => True
  | e :: es => e.WellFormed ctx table ∧ Expr.WellFormedAll ctx table es

end

mutual

/-- How deeply the expression is nested for the reader. -/
def Expr.height : Expr → Nat
  | .atom _ | .reference _ _ | .const _ | .jump _ | .caseElse _ | .labelTable _ => 1
  | .wrap _ e | .typed _ _ e | .switch _ e | .jumpIfNot _ e | .assert _ _ e | .caseOf _ e
  | .skip _ e | .iterator e _ | .conversion e | .cast _ _ e => 1 + e.height
  | .pair _ e₁ e₂ | .context _ e₁ _ _ e₂ | .compare _ _ e₁ e₂ => 1 + max e₁.height e₂.height
  | .remove e₁ e₂ e₃ => 1 + max e₁.height (max e₂.height e₃.height)
  | .new e₁ e₂ e₃ e₄ => 1 + max (max e₁.height e₂.height) (max e₃.height e₄.height)
  | .call _ params => 1 + max 1 (Expr.heightAll params)

/-- The height of the highest of the expressions. -/
def Expr.heightAll : List Expr → Nat
  | [] => 0
  | e :: es => max e.height (Expr.heightAll es)

end

theorem Expr.wellFormedAll_iff {ctx : Context} {table : OpcodeTable} {es : List Expr} :
    Expr.WellFormedAll ctx table es ↔ ∀ e ∈ es, e.WellFormed ctx table := by
  induction es with
  | nil => simp [Expr.WellFormedAll]
  | cons e es ih => simp [Expr.WellFormedAll, ih]

theorem Expr.heightAll_le_iff {es : List Expr} {n : Nat} :
    Expr.heightAll es ≤ n ↔ ∀ e ∈ es, e.height ≤ n := by
  induction es with
  | nil => simp [Expr.heightAll]
  | cons e es ih => rw [Expr.heightAll, Nat.max_le, ih, List.forall_mem_cons]

theorem Expr.height_pos (e : Expr) : 0 < e.height := by
  cases e <;> rw [Expr.height] <;> omega

/-- The end of the parameters means the same in both tables of both revisions. -/
theorem means_endOfParams (ctx : Context) (table : OpcodeTable) :
    Means ctx table Atom.endOfParams.opcode (.atom .endOfParams) := by
  unfold Means
  cases ctx.format <;> cases table <;> rfl

end UnrealPackage.Script
