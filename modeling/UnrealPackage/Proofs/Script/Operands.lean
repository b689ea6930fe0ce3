import UnrealPackage.Proofs.Script.WellFormed
/-!
# Expressions read back from their operands

`ReadsBack ctx levels table e`: writing `e` succeeds, and reading the bytes with so many levels left
gives `e`, takes exactly these bytes and counts exactly the size of `e`.

Every constructor but the call has a lemma here, which reads an expression of that kind back if its
operands are read back one level further down. What they share is `ReadsBack.lead`: the opcode is
looked up as what it was written for.
-/

namespace UnrealPackage.Script

open ScriptDecode

variable {ctx : Context} {levels : Nat} {table : OpcodeTable} {e : Expr}
  {operand first second third fourth : Expr}

/-- Writing the expression succeeds, and reading its bytes with so many levels left takes exactly
them, counts the size of the expression, and gives it. -/
def ReadsBack (ctx : Context) (levels : Nat) (table : OpcodeTable) (e : Expr) : Prop :=
  ∃ bytes, e.encode ctx.charset = .ok bytes ∧
    Reads (readExpr ctx levels table) bytes (e.loadedSize ctx.charset) e

/-- Nothing is read from no bytes. -/
theorem readExpr_nil (used : UInt32) (result : Expr × Position) :
    readExpr ctx levels table ⟨[], used⟩ ≠ .ok result := by
  cases levels <;> exact nofun

theorem length_pos_of_reads {bytes : List UInt8} {size : Nat}
    (h : Reads (readExpr ctx levels table) bytes size e) : 0 < bytes.length := by
  cases bytes with
  | nil => exact absurd (h [] 0) (readExpr_nil 0 _)
  | cons b bytes => exact Nat.succ_pos _

theorem Expr.loadedSize_pos (cs : Charset) (e : Expr) : 0 < e.loadedSize cs := by
  cases e <;> rw [Expr.loadedSize] <;> omega

/-- After an opcode, what it means tells how the rest of the expression is read. -/
theorem readExpr_lead {opcode : UInt8} {op : Op} (hop : Means ctx table opcode op)
    (rest : List UInt8) (used : UInt32) :
    readExpr ctx (levels + 1) table ⟨opcode :: rest, used⟩ =
      readOperands ctx (readExpr ctx levels table) (readExpr ctx levels .conversion) opcode op
        ⟨rest, used + 1⟩ := by
  refine ((reads_u8 opcode).continues _ rest used).trans ?_
  rw [hop]
  rfl

/-- An opcode is read as what it means, and what follows it as the rest of the expression. -/
theorem reads_lead {opcode : UInt8} {op : Op} {bytes : List UInt8} {size : Nat}
    (hop : Means ctx table opcode op)
    (hr : Reads (readOperands ctx (readExpr ctx levels table) (readExpr ctx levels .conversion)
      opcode op) bytes size e) : Reads (readExpr ctx (levels + 1) table) (opcode :: bytes)
      (1 + size) e := by
  intro rest used
  rw [List.cons_append, readExpr_lead hop, hr, ← add_ofNat_add_ofNat]
  rfl

attribute [local simp] Expr.encode Expr.loadedSize except_ok_bind pure Except.pure

namespace ReadsBack

/-- An expression is read back if what it was begun with is read as that, and what was written after
it is read as the rest. -/
theorem lead {opcode : UInt8} {op : Op} {bytes : List UInt8} {size : Nat}
    (hop : Means ctx table opcode op) (hbytes : e.encode ctx.charset = .ok (opcode :: bytes))
    (hsize : e.loadedSize ctx.charset = 1 + size)
    (hr : Reads (readOperands ctx (readExpr ctx levels table) (readExpr ctx levels .conversion)
      opcode op) bytes size e) : ReadsBack ctx (levels + 1) table e :=
  ⟨opcode :: bytes, hbytes, (reads_lead hop hr).congr rfl hsize.symm⟩

/-! ## Expressions without operands -/

theorem atom {a : Atom} (hop : Means ctx table a.opcode (.atom a)) :
    ReadsBack ctx (levels + 1) table (.atom a) :=
  lead hop rfl rfl (.pure _)

theorem reference {use : RefUse} {object : ObjectRef}
    (hop : Means ctx table use.opcode (.reference use)) :
    ReadsBack ctx (levels + 1) table (.reference use object) :=
  lead hop rfl rfl ((reads_object object).map _)

theorem const {c : Const} (hop : Means ctx table c.kind.opcode (.const c.kind))
    (hc : c.Storable ctx.charset) : ReadsBack ctx (levels + 1) table (.const c) :=
  lead hop rfl rfl ((reads_const hc).map _)

theorem jump {offset : UInt16} (hop : Means ctx table Opcode.jump .jump) :
    ReadsBack ctx (levels + 1) table (.jump offset) :=
  lead hop rfl rfl ((reads_u16 offset).map _)

theorem caseElse (hop : Means ctx table Opcode.case .case) :
    ReadsBack ctx (levels + 1) table (.caseElse defaultCaseOffset) :=
  lead hop rfl rfl ((reads_u16 defaultCaseOffset).bind (.pure _))

/-- A table of labels is read back if it ends with the name None. -/
theorem labelTable {i : Nat} {labels : List Label}
    (hop : Means ctx table Opcode.labelTable .labelTable)
    (hnone : ctx.tables.nameIndex? noneName = some i) (hend : EndsWith (Int32.ofNat i) labels) :
    ReadsBack ctx (levels + 1) table (.labelTable labels) := by
  refine lead hop rfl rfl (Reads.itemBound fun bound hbound => ?_)
  have hlength := length_le_flatMap_encode labels
  rw [hnone]
  exact (reads_labels hend (by omega)).bindPure _

/-! ## Expressions with operands -/

/-- An expression in a wrapper is read back if it is. -/
theorem wrap {w : Wrapper} (hop : Means ctx table w.opcode (.wrap w))
    (h : ReadsBack ctx levels table operand) :
    ReadsBack ctx (levels + 1) table (.wrap w operand) := by
  obtain ⟨bytes, hbytes, hr⟩ := h
  refine lead hop ?_ rfl (hr.map _)
  simp [hbytes]

/-- A pair is read back if its operands are. -/
theorem pair {p : Pairing} (hop : Means ctx table p.opcode (.pair p))
    (h₁ : ReadsBack ctx levels table first) (h₂ : ReadsBack ctx levels table second) :
    ReadsBack ctx (levels + 1) table (.pair p first second) := by
  obtain ⟨bytes₁, hbytes₁, hr₁⟩ := h₁
  obtain ⟨bytes₂, hbytes₂, hr₂⟩ := h₂
  refine lead hop ?_ ?_ (hr₁.bind (hr₂.bindPure _))
  · simp [hbytes₁, hbytes₂]
  · rw [Expr.loadedSize, Nat.add_assoc]

/-- An expression in the context of another is read back if both are. -/
theorem context {use : ContextUse} {skip : UInt16} {size : UInt8}
    (hop : Means ctx table use.opcode (.context use)) (h₁ : ReadsBack ctx levels table first)
    (h₂ : ReadsBack ctx levels table second) :
    ReadsBack ctx (levels + 1) table (.context use first skip size second) := by
  obtain ⟨bytes₁, hbytes₁, hr₁⟩ := h₁
  obtain ⟨bytes₂, hbytes₂, hr₂⟩ := h₂
  refine lead hop ?_ ?_
    (hr₁.bind ((reads_u16 skip).bind ((reads_u8 size).bind (hr₂.bindPure _))))
  · simp [hbytes₁, hbytes₂]
  · rw [Expr.loadedSize]
    omega

/-- An expression with a type is read back if it is. -/
theorem typed {use : TypedUse} {type : ObjectRef} (hop : Means ctx table use.opcode (.typed use))
    (h : ReadsBack ctx levels table operand) :
    ReadsBack ctx (levels + 1) table (.typed use type operand) := by
  obtain ⟨bytes, hbytes, hr⟩ := h
  refine lead hop ?_ ?_ ((reads_object type).bind (hr.bindPure _))
  · simp [hbytes]
  · rw [Expr.loadedSize]
    omega

/-- A comparison of structs is read back if its operands are. -/
theorem compare {c : StructComparison} {struct : ObjectRef}
    (hop : Means ctx table c.opcode (.compare c)) (h₁ : ReadsBack ctx levels table first)
    (h₂ : ReadsBack ctx levels table second) :
    ReadsBack ctx (levels + 1) table (.compare c struct first second) := by
  obtain ⟨bytes₁, hbytes₁, hr₁⟩ := h₁
  obtain ⟨bytes₂, hbytes₂, hr₂⟩ := h₂
  refine lead hop ?_ ?_ ((reads_object struct).bind (hr₁.bind (hr₂.bindPure _)))
  · simp [hbytes₁, hbytes₂]
  · rw [Expr.loadedSize]
    omega

/-- A switch is read back if its operand is. -/
theorem switch {size : UInt8} (hop : Means ctx table Opcode.switch .switch)
    (h : ReadsBack ctx levels table operand) :
    ReadsBack ctx (levels + 1) table (.switch size operand) := by
  obtain ⟨bytes, hbytes, hr⟩ := h
  refine lead hop ?_ ?_ ((reads_u8 size).bind (hr.bindPure _))
  · simp [hbytes]
  · rw [Expr.loadedSize]
    omega

/-- A jump is read back if its condition is. -/
theorem jumpIfNot {offset : UInt16} (hop : Means ctx table Opcode.jumpIfNot .jumpIfNot)
    (h : ReadsBack ctx levels table operand) :
    ReadsBack ctx (levels + 1) table (.jumpIfNot offset operand) := by
  obtain ⟨bytes, hbytes, hr⟩ := h
  refine lead hop ?_ ?_ ((reads_u16 offset).bind (hr.bindPure _))
  · simp [hbytes]
  · rw [Expr.loadedSize]
    omega

/-- An assertion is read back if its condition is. -/
theorem assert {line : UInt16} {debug : UInt8} (hop : Means ctx table Opcode.assert .assert)
    (h : ReadsBack ctx levels table operand) :
    ReadsBack ctx (levels + 1) table (.assert line debug operand) := by
  obtain ⟨bytes, hbytes, hr⟩ := h
  refine lead hop ?_ ?_ ((reads_u16 line).bind ((reads_u8 debug).bind (hr.bindPure _)))
  · simp [hbytes]
  · rw [Expr.loadedSize]
    omega

/-- The offset of a case with a value tells the reader that there is one. -/
theorem caseOf {offset : UInt16} (hop : Means ctx table Opcode.case .case)
    (hoffset : offset ≠ defaultCaseOffset) (h : ReadsBack ctx levels table operand) :
    ReadsBack ctx (levels + 1) table (.caseOf offset operand) := by
  obtain ⟨bytes, hbytes, hr⟩ := h
  have hvalue : Reads (if offset = defaultCaseOffset then pure (Expr.caseElse offset) else
      readExpr ctx levels table >>= fun value => pure (Expr.caseOf offset value)) bytes
      (operand.loadedSize ctx.charset) (Expr.caseOf offset operand) := by
    rw [if_neg hoffset]
    exact hr.bindPure _
  refine lead hop ?_ ?_ ((reads_u16 offset).bind hvalue)
  · simp [hbytes, hoffset]
  · rw [Expr.loadedSize]
    omega

/-- A new object is read back if its operands are. -/
theorem new (hop : Means ctx table Opcode.new .new) (h₁ : ReadsBack ctx levels table first)
    (h₂ : ReadsBack ctx levels table second) (h₃ : ReadsBack ctx levels table third)
    (h₄ : ReadsBack ctx levels table fourth) :
    ReadsBack ctx (levels + 1) table (.new first second third fourth) := by
  obtain ⟨bytes₁, hbytes₁, hr₁⟩ := h₁
  obtain ⟨bytes₂, hbytes₂, hr₂⟩ := h₂
  obtain ⟨bytes₃, hbytes₃, hr₃⟩ := h₃
  obtain ⟨bytes₄, hbytes₄, hr₄⟩ := h₄
  refine lead hop ?_ ?_ (hr₁.bind (hr₂.bind (hr₃.bind (hr₄.bindPure _))))
  · simp [hbytes₁, hbytes₂, hbytes₃, hbytes₄]
  · rw [Expr.loadedSize]
    omega

/-- An expression that may be skipped is read back if it is. -/
theorem skip {size : UInt16} (hop : Means ctx table Opcode.skip .skip)
    (h : ReadsBack ctx levels table operand) :
    ReadsBack ctx (levels + 1) table (.skip size operand) := by
  obtain ⟨bytes, hbytes, hr⟩ := h
  refine lead hop ?_ ?_ ((reads_u16 size).bind (hr.bindPure _))
  · simp [hbytes]
  · rw [Expr.loadedSize]
    omega

/-- An iteration is read back if its call is. -/
theorem iterator {stop : UInt16} (hop : Means ctx table Opcode.iterator .iterator)
    (h : ReadsBack ctx levels table operand) :
    ReadsBack ctx (levels + 1) table (.iterator operand stop) := by
  obtain ⟨bytes, hbytes, hr⟩ := h
  refine lead hop ?_ ?_ (hr.bind ((reads_u16 stop).bindPure _))
  · simp [hbytes]
  · rw [Expr.loadedSize]
    omega

/-- The operand of a conversion is read with the other table. -/
theorem conversion (hop : Means ctx table Opcode.conversion .conversion)
    (h : ReadsBack ctx levels .conversion operand) :
    ReadsBack ctx (levels + 1) table (.conversion operand) := by
  obtain ⟨bytes, hbytes, hr⟩ := h
  refine lead hop ?_ rfl (hr.map _)
  simp [hbytes]

/-- A cast is read back if its operand is. -/
theorem cast {opcode : UInt8} {name : String} (hop : Means ctx table opcode (.cast name))
    (h : ReadsBack ctx levels table operand) :
    ReadsBack ctx (levels + 1) table (.cast opcode name operand) := by
  obtain ⟨bytes, hbytes, hr⟩ := h
  refine lead hop ?_ rfl (hr.map _)
  simp [hbytes]

/-- A removal is read back if its operands are. -/
theorem remove (hop : Means ctx table Opcode.remove .remove)
    (h₁ : ReadsBack ctx levels table first) (h₂ : ReadsBack ctx levels table second)
    (h₃ : ReadsBack ctx levels table third) :
    ReadsBack ctx (levels + 1) table (.remove first second third) := by
  obtain ⟨bytes₁, hbytes₁, hr₁⟩ := h₁
  obtain ⟨bytes₂, hbytes₂, hr₂⟩ := h₂
  obtain ⟨bytes₃, hbytes₃, hr₃⟩ := h₃
  refine lead hop ?_ ?_ (hr₁.bind (hr₂.bind (hr₃.bindPure _)))
  · simp [hbytes₁, hbytes₂, hbytes₃]
  · rw [Expr.loadedSize]
    omega

end ReadsBack

end UnrealPackage.Script
