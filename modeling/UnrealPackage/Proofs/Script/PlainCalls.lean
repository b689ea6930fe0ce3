import UnrealPackage.Proofs.Script.Spelled
import UnrealPackage.Script.Native.Stock
/-!
# Reading all natives as plain calls

A script can be walked before its native functions are known: calls of every layout end with the
same mark, so `NativeTable.any` takes each of them for an ordinary call. `decodeSized_plain` is what
makes this right. A script that is read with the functions is read without them as well, with the
same bytes and the same size, and what is found differs in the functions alone.

There is one exception. An operator takes its operands by number, so one of them may be the mark
itself; an ordinary call ends there. `Expr.OperandsClosed` says that this is nowhere the case.
-/

namespace UnrealPackage.Script

/-! ## Functions -/

/-- The ordinary function that stands for a function where nothing but its index is known. -/
def NativeFunction.plain (f : NativeFunction) : NativeFunction :=
  { index := f.index, name := "Native" ++ toString f.index }

/-- Whether the table gives for each index, if anything, a function of that index. -/
def NativeTable.Indexed (natives : NativeTable) : Prop :=
  ∀ ⦃index f⦄, natives index = .ok f → f.index = index

namespace NativeTable

theorem indexed_none : none.Indexed :=
  nofun

theorem indexed_any : any.Indexed := by
  intro index f h
  cases h
  rfl

/-- A function that is found in a list was found by its index. -/
theorem Indexed.ofList {fallback : NativeTable} (h : fallback.Indexed)
    (functions : List NativeFunction) : (ofList functions fallback).Indexed := by
  intro index f hf
  unfold NativeTable.ofList at hf
  split at hf
  · next found hfound =>
    cases hf
    have hindex := List.find?_some hfound
    simpa using hindex
  · exact h hf

theorem indexed_stock : stock.Indexed :=
  indexed_none.ofList stockNatives

end NativeTable

/-! ## Expressions -/

/-- The callee without what is known about a native function. -/
def Callee.plain : Callee → Callee
  | native f => native f.plain
  | callee => callee

mutual

/-- The expression without what is known about native functions. -/
def Expr.plain : Expr → Expr
  | .wrap w operand => .wrap w operand.plain
  | .pair p first second => .pair p first.plain second.plain
  | .context use object skipped size member => .context use object.plain skipped size member.plain
  | .typed use type operand => .typed use type operand.plain
  | .compare c struct lhs rhs => .compare c struct lhs.plain rhs.plain
  | .switch size value => .switch size value.plain
  | .jumpIfNot offset condition => .jumpIfNot offset condition.plain
  | .assert line debug condition => .assert line debug condition.plain
  | .caseOf offset value => .caseOf offset value.plain
  | .new outer name flags type => .new outer.plain name.plain flags.plain type.plain
  | .skip size operand => .skip size operand.plain
  | .call callee params => .call callee.plain (Expr.plainAll params)
  | .iterator operand stop => .iterator operand.plain stop
  | .conversion operand => .conversion operand.plain
  | .cast opcode name operand => .cast opcode name operand.plain
  | .remove array index count => .remove array.plain index.plain count.plain
  | .atom a => .atom a
  | .reference use object => .reference use object
  | .const value => .const value
  | .jump offset => .jump offset
  | .caseElse offset => .caseElse offset
  | .labelTable labels => .labelTable labels

/-- Expressions in a row without what is known about native functions. -/
def Expr.plainAll : List Expr → List Expr
  | [] => []
  | e :: es => e.plain :: Expr.plainAll es

end

/-- Whether none of the operands of a native operator is the end of the parameters. -/
def Callee.Closes (params : List Expr) : Callee → Prop
  | native f => f.shape = .call ∨ ∀ param ∈ params, param.isEnd = false
  | _ => True

mutual

/-- Whether no native operator in the expression has the end of the parameters as an operand. -/
def Expr.OperandsClosed : Expr → Prop
  | .wrap _ e | .typed _ _ e | .switch _ e | .jumpIfNot _ e | .assert _ _ e | .caseOf _ e
  | .skip _ e | .iterator e _ | .conversion e | .cast _ _ e => e.OperandsClosed
  | .pair _ e₁ e₂ | .context _ e₁ _ _ e₂ | .compare _ _ e₁ e₂ =>
    e₁.OperandsClosed ∧ e₂.OperandsClosed
  | .remove e₁ e₂ e₃ => e₁.OperandsClosed ∧ e₂.OperandsClosed ∧ e₃.OperandsClosed
  | .new e₁ e₂ e₃ e₄ =>
    e₁.OperandsClosed ∧ e₂.OperandsClosed ∧ e₃.OperandsClosed ∧ e₄.OperandsClosed
  | .call callee params => callee.Closes params ∧ Expr.OperandsClosedAll params
  | .atom _ | .reference _ _ | .const _ | .jump _ | .caseElse _ | .labelTable _ => True

/-- Whether each of the expressions has closed operands. -/
def Expr.OperandsClosedAll : List Expr → Prop
  | [] => True
  | e :: es => e.OperandsClosed ∧ Expr.OperandsClosedAll es

end

theorem Expr.plainAll_eq_map (es : List Expr) : Expr.plainAll es = es.map Expr.plain := by
  induction es with
  | nil => rfl
  | cons e es ih => rw [Expr.plainAll, ih, List.map_cons]

@[simp] theorem Expr.isEnd_plain (e : Expr) : e.plain.isEnd = e.isEnd := by
  cases e <;> rfl

/-- Arguments none of which is the end of the parameters are those of an ordinary call. -/
theorem takes_plainAll {params : List Expr} (h : ∀ param ∈ params, param.isEnd = false) :
    CallShape.call.Takes (Expr.plainAll params) := by
  rw [Expr.plainAll_eq_map]
  intro param hparam
  obtain ⟨e, he, rfl⟩ := List.mem_map.1 hparam
  rw [Expr.isEnd_plain]
  exact h e he

/-! ## The same spelling -/

/-- The context of a reader that knows no native function. -/
def Context.plain (ctx : Context) : Context :=
  { ctx with natives := .any }

variable {ctx : Context} {levels : Nat} {table : OpcodeTable} {pieces : List Piece} {e : Expr}
  {params : List Expr}

/-- What an opcode means has nothing to do with native functions. -/
theorem Means.plain {opcode : UInt8} {op : Op} (h : Means ctx table opcode op) :
    Means ctx.plain table opcode op :=
  h

/-- Operands keep their pieces, and so does the end of the parameters. -/
theorem SpellsParams.plain {next next' : Spelling}
    (hnext : ∀ ⦃pieces e⦄, next pieces e → e.OperandsClosed → next' pieces e.plain)
    (h : SpellsParams next pieces params) (hclosed : Expr.OperandsClosedAll params) :
    SpellsParams next' pieces (Expr.plainAll params) := by
  induction h with
  | nil hend => exact .nil (hnext hend trivial)
  | cons he hrest ih => exact .cons (hnext he hclosed.1) (ih hclosed.2)

/-- The operands of an operator are the arguments of an ordinary call, unless one of them is its
end. -/
theorem Phrase.plainNative {next converted : Spelling} {form : NativeForm} {f : NativeFunction}
    (hnatives : ctx.natives.Indexed) (hop : lookupOp? ctx.format table form.opcode = none)
    (hfirst : Opcode.firstNative ≤ form.index) (hf : ctx.natives form.index = .ok f)
    (h : SpellsParams next pieces (Expr.plainAll params)) (htakes : f.shape.Takes params)
    (hcloses : (Callee.native f).Closes params) :
    Phrase ctx.plain table next converted (.native form :: pieces)
      (.call (.native f.plain) (Expr.plainAll params)) := by
  have hplain : ctx.plain.natives form.index = .ok f.plain := by
    rw [← hnatives hf]
    rfl
  have hopen : ∀ param ∈ params, param.isEnd = false := by
    rcases hcloses with hshape | hclosed
    · rw [hshape] at htakes
      exact htakes
    · exact hclosed
  exact .nativeCall hop hfirst hplain h (takes_plainAll hopen)

/-- A spelling says the same expression to a reader that knows no native function. -/
theorem Spells.plain (hnatives : ctx.natives.Indexed) (h : Spells ctx levels table pieces e)
    (hclosed : e.OperandsClosed) : Spells ctx.plain levels table pieces e.plain := by
  induction levels generalizing table pieces e with
  | zero => cases h
  | succ levels ih =>
    have ihParams : ∀ {pieces params}, SpellsParams (Spells ctx levels table) pieces params →
        Expr.OperandsClosedAll params →
        SpellsParams (Spells ctx.plain levels table) pieces (Expr.plainAll params) :=
      fun h => h.plain fun _ _ => ih
    show Phrase ctx.plain table _ _ pieces e.plain
    cases h with
    | atom hop => exact .atom hop.plain
    | reference hop hform => exact .reference hop.plain hform
    | const hop hc => exact .const hop.plain hc
    | wrap hop h => exact .wrap hop.plain (ih h hclosed)
    | pair hop h₁ h₂ => exact .pair hop.plain (ih h₁ hclosed.1) (ih h₂ hclosed.2)
    | context hop h₁ h₂ => exact .context hop.plain (ih h₁ hclosed.1) (ih h₂ hclosed.2)
    | typed hop htype h => exact .typed hop.plain htype (ih h hclosed)
    | compare hop hstruct h₁ h₂ =>
      exact .compare hop.plain hstruct (ih h₁ hclosed.1) (ih h₂ hclosed.2)
    | switch hop h => exact .switch hop.plain (ih h hclosed)
    | jump hop => exact .jump hop.plain
    | jumpIfNot hop h => exact .jumpIfNot hop.plain (ih h hclosed)
    | assert hop h => exact .assert hop.plain (ih h hclosed)
    | caseOf hop hoffset h => exact .caseOf hop.plain hoffset (ih h hclosed)
    | caseElse hop => exact .caseElse hop.plain
    | labelTable hop hnone h => exact .labelTable hop.plain hnone h
    | new hop h₁ h₂ h₃ h₄ =>
      obtain ⟨hc₁, hc₂, hc₃, hc₄⟩ := hclosed
      exact .new hop.plain (ih h₁ hc₁) (ih h₂ hc₂) (ih h₃ hc₃) (ih h₄ hc₄)
    | skip hop h => exact .skip hop.plain (ih h hclosed)
    | virtualCall hop hname h htakes =>
      exact .virtualCall hop.plain hname (ihParams h hclosed.2) (takes_plainAll htakes)
    | globalCall hop hname h htakes =>
      exact .globalCall hop.plain hname (ihParams h hclosed.2) (takes_plainAll htakes)
    | finalCall hop hfunction h htakes =>
      exact .finalCall hop.plain hfunction (ihParams h hclosed.2) (takes_plainAll htakes)
    | nativeCall hop hfirst hf h htakes =>
      exact .plainNative hnatives hop hfirst hf (ihParams h hclosed.2) htakes hclosed.1
    | iterator hop h => exact .iterator hop.plain (ih h hclosed)
    | conversion hop h => exact .conversion hop.plain (ih h hclosed)
    | cast hop h => exact .cast hop.plain (ih h hclosed)
    | remove hop h₁ h₂ h₃ =>
      obtain ⟨hc₁, hc₂, hc₃⟩ := hclosed
      exact .remove hop.plain (ih h₁ hc₁) (ih h₂ hc₂) (ih h₃ hc₃)

/-- Statements lie at the same places for a reader that knows no native function. -/
theorem SpellsStatements.plain {size used : UInt32} {spelled : List (List Piece)}
    {statements : List Expr} (hnatives : ctx.natives.Indexed)
    (h : SpellsStatements ctx size used spelled statements)
    (hclosed : ∀ e ∈ statements, e.OperandsClosed) :
    SpellsStatements ctx.plain size used spelled (statements.map Expr.plain) := by
  induction h with
  | nil hsize => exact .nil hsize
  | cons hsize he hrest ih =>
    rw [List.forall_mem_cons] at hclosed
    exact .cons hsize (he.plain hnatives hclosed.1) (ih hclosed.2)

/-- A script that is read with the native functions, and none of whose operators has the end of the
parameters as an operand, is read without them as well. It takes the same bytes and the same size,
and the statements differ only in what is known about the functions. -/
theorem decodeSized_plain {size used : UInt32} {input rest : List UInt8} {statements : List Expr}
    (hnatives : ctx.natives.Indexed)
    (h : decodeSized ctx size input = .ok ((statements, used), rest))
    (hclosed : ∀ e ∈ statements, e.OperandsClosed) :
    decodeSized ctx.plain size input = .ok ((statements.map Expr.plain, used), rest) := by
  obtain ⟨spelled, hs, hinput, hused⟩ := decodeSized_eq_ok.1 h
  exact decodeSized_eq_ok.2 ⟨spelled, hs.plain hnatives hclosed, hinput, hused⟩

end UnrealPackage.Script
