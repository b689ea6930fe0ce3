import UnrealPackage.Proofs.Script.Accepted
import UnrealPackage.Proofs.Script.Calls
/-!
# What is spelled is read

`Spells.reads`: the reader takes every spelling of an expression off its input, whatever follows,
counts its size in memory, and gives the expression. With `readExpr_accepts` it makes the grammar an
exact description of the reader: `decodeSized_eq_ok`.

A spelling in the grammar may use forms that are never written, so this is more than that what is
written is read back.
-/

namespace UnrealPackage.Script

open ScriptDecode

variable {ctx : Context} {levels : Nat} {table : OpcodeTable} {pieces : List Piece} {e : Expr}

/-! ## Values -/

theorem reads_form {form : List UInt8} {v : Int32} (h : Decode.Reads Decode.compact form v) :
    Reads compact form 4 v :=
  .wide h

theorem reads_objectForm {form : List UInt8} {r : ObjectRef}
    (h : Decode.Reads Decode.compact form r.value) : Reads object form 4 r :=
  .wide (h.map ObjectRef.mk)

/-- The other bytes of a native call tell the index of the function. -/
theorem reads_nativeForm (form : NativeForm) :
    Reads (readNativeIndex form.opcode) form.tail form.tail.length form.index := by
  unfold readNativeIndex
  cases form with
  | short opcode h =>
    rw [NativeForm.opcode, if_neg (Nat.not_lt.2 h)]
    exact .pure opcode.toNat
  | long high low hge hlt =>
    rw [NativeForm.opcode, if_pos hlt]
    exact (reads_u8 low).map _

/-- A native call begins in the range of native calls. -/
theorem NativeForm.extendedNative_le_opcode (form : NativeForm) :
    Opcode.extendedNative ≤ form.opcode := by
  cases form with
  | short opcode h =>
    unfold Opcode.firstNative at h
    rw [UInt8.le_iff_toNat_le]
    exact Nat.le_trans (by decide) h
  | long high low hge hlt => exact hge

/-- A constant is read from what spells it. -/
theorem SpellsConst.reads {cs : Charset} {c : Const} (h : SpellsConst cs pieces c) :
    Reads (readConst cs c.kind) (bytesOf pieces) (loadedSizeOf pieces) c := by
  cases h with
  | int v =>
    refine ((reads_i32 v).map _).congr ?_ ?_ <;> simp [Piece.bytes, Piece.loadedSize]
  | float v =>
    refine ((reads_single v).map _).congr ?_ ?_ <;> simp [Piece.bytes, Piece.loadedSize]
  | @text stored hzero =>
    have hstored : Decode.Reads Decode.untilZero (stored ++ [0]) stored :=
      Decode.reads_untilZero fun x hx h0 => hzero (h0 ▸ hx)
    refine ((Reads.plain (hstored.map cs.decodeLossy)).map _).congr ?_ ?_ <;>
      simp [Piece.bytes, Piece.loadedSize]
  | wideText hzero hs =>
    refine ((Reads.plain (Decode.reads_wideUnits _ hzero hs)).map _).congr ?_ ?_ <;>
      simp [Piece.bytes, Piece.loadedSize]
  | name hform =>
    refine ((reads_form hform).map _).congr ?_ ?_ <;> simp [Piece.bytes, Piece.loadedSize]
  | byte v => exact (reads_u8 v).map _
  | shortInt v => exact (reads_u8 v).map _
  | rotator pitch yaw roll =>
    have hr : Reads (readConst cs .rotator) _ _ (.rotator pitch yaw roll) :=
      (reads_i32 pitch).bind <| (reads_i32 yaw).bind <| (reads_i32 roll).bindPure _
    refine hr.congr ?_ ?_ <;> simp [Piece.bytes, Piece.loadedSize]
  | vector x y z =>
    have hr : Reads (readConst cs .vector) _ _ (.vector x y z) :=
      (reads_single x).bind <| (reads_single y).bind <| (reads_single z).bindPure _
    refine hr.congr ?_ ?_ <;> simp [Piece.bytes, Piece.loadedSize]

/-- Every label takes its offset at least. -/
theorem SpellsLabels.length_le {last : NameIndex} {labels : List Label}
    (h : SpellsLabels last pieces labels) : labels.length ≤ (bytesOf pieces).length := by
  induction h with
  | last hform hname =>
    simp only [bytesOf_cons, bytesOf_nil, Piece.bytes, List.length_append, List.length_singleton,
      Encode.length_i32]
    omega
  | cons hform hname hrest ih =>
    simp only [bytesOf_cons, Piece.bytes, List.length_append, List.length_cons, Encode.length_i32]
    omega

/-- Labels are read from what spells them. -/
theorem SpellsLabels.reads {i bound : Nat} {labels : List Label}
    (h : SpellsLabels (Int32.ofNat i) pieces labels) (hbound : labels.length ≤ bound) :
    Reads (readLabels (some i) bound) (bytesOf pieces) (loadedSizeOf pieces) labels := by
  induction h generalizing bound with
  | @last l form hform hname =>
    obtain ⟨bound, rfl⟩ := Nat.exists_eq_add_one_of_ne_zero (Nat.ne_of_gt hbound)
    have hlast : Reads (if l.name = Int32.ofNat i then pure [l] else
        readLabels (some i) bound >>= fun rest => pure (l :: rest)) [] 0 [l] := by
      rw [if_pos hname]
      exact .pure [l]
    have hr : Reads (readLabels (some i) (bound + 1)) _ _ [l] :=
      (reads_form hform).bind ((reads_i32 l.offset).bind hlast)
    refine hr.congr ?_ ?_ <;> simp [Piece.bytes, Piece.loadedSize]
  | @cons l form more labels hform hname hrest ih =>
    obtain ⟨bound, rfl⟩ := Nat.exists_eq_add_one_of_ne_zero
      (Nat.ne_of_gt (Nat.lt_of_lt_of_le (Nat.succ_pos _) hbound))
    have hmore : Reads (if l.name = Int32.ofNat i then pure [l] else
        readLabels (some i) bound >>= fun rest => pure (l :: rest)) (bytesOf more)
        (loadedSizeOf more) (l :: labels) := by
      rw [if_neg hname]
      exact (ih (Nat.le_of_succ_le_succ hbound)).bindPure _
    have hr : Reads (readLabels (some i) (bound + 1)) _ _ (l :: labels) :=
      (reads_form hform).bind ((reads_i32 l.offset).bind hmore)
    refine hr.congr ?_ ?_ <;> simp [Piece.bytes, Piece.loadedSize]

/-! ## Operands

Operands are read one level further down, where every spelling is read already. -/

section

variable (ctx levels table)

/-- Whether the reader takes every spelling with so many levels. -/
def ReadsSpelled : Prop :=
  ∀ ⦃pieces e⦄, Spells ctx levels table pieces e →
    Reads (readExpr ctx levels table) (bytesOf pieces) (loadedSizeOf pieces) e

end

variable {params : List Expr}

/-- Every operand takes a byte at least. -/
theorem SpellsParams.length_lt (hnext : ReadsSpelled ctx levels table)
    (h : SpellsParams (Spells ctx levels table) pieces params) :
    params.length < (bytesOf pieces).length := by
  induction h with
  | nil hend => exact length_pos_of_reads (hnext hend)
  | cons he hrest ih =>
    have hpos := length_pos_of_reads (hnext he)
    rw [List.length_cons, bytesOf_append, List.length_append]
    omega

/-- Arguments, none of which is the end of the parameters, are read up to that end. -/
theorem SpellsParams.reads (hnext : ReadsSpelled ctx levels table)
    (h : SpellsParams (Spells ctx levels table) pieces params)
    (htakes : CallShape.call.Takes params) {bound : Nat} (hbound : params.length < bound) :
    Reads (readParams (readExpr ctx levels table) bound) (bytesOf pieces) (loadedSizeOf pieces)
      params := by
  induction h generalizing bound with
  | nil hend =>
    obtain ⟨bound, rfl⟩ := Nat.exists_eq_add_one_of_ne_zero (Nat.ne_of_gt hbound)
    have hr : Reads (readParams (readExpr ctx levels table) (bound + 1)) _ _ [] :=
      (hnext hend).bind (.pure [])
    exact hr.congr (List.append_nil _) rfl
  | @cons front more e es he hrest ih =>
    obtain ⟨bound, rfl⟩ := Nat.exists_eq_add_one_of_ne_zero
      (Nat.ne_of_gt (Nat.lt_of_le_of_lt (Nat.zero_le _) hbound))
    have hparam := htakes e List.mem_cons_self
    have hmore := ih (fun e he => htakes e (List.mem_cons_of_mem _ he))
      (Nat.lt_of_succ_lt_succ hbound)
    have hr : Reads (readParams (readExpr ctx levels table) (bound + 1))
        (bytesOf front ++ bytesOf more) (loadedSizeOf front + loadedSizeOf more) (e :: es) := by
      refine (hnext he).bind ?_
      split
      · cases hparam
      · exact hmore.bindPure _
    exact hr.congr (bytesOf_append front more).symm (loadedSizeOf_append front more).symm

/-- The loop for arguments begins with a bound that is large enough. -/
theorem SpellsParams.reads_arguments (hnext : ReadsSpelled ctx levels table)
    (h : SpellsParams (Spells ctx levels table) pieces params)
    (htakes : CallShape.call.Takes params) (callee : Callee) :
    Reads (itemBound >>= fun bound =>
        readParams (readExpr ctx levels table) bound >>= fun params =>
          pure (Expr.call callee params))
      (bytesOf pieces) (loadedSizeOf pieces) (.call callee params) := by
  refine Reads.itemBound fun bound hbound => ?_
  have hlength := h.length_lt hnext
  exact (h.reads hnext htakes (by omega)).bindPure _

/-- The end of the operands is read from what spells it. -/
theorem ReadsSpelled.reads_endOfOperands (hnext : ReadsSpelled ctx levels table)
    (hend : Spells ctx levels table pieces (.atom .endOfParams)) (name : String) :
    Reads (readEndOfOperands (readExpr ctx levels table) name) (bytesOf pieces)
      (loadedSizeOf pieces) () := by
  have hr : Reads (readEndOfOperands (readExpr ctx levels table) name) _ _ () :=
    (hnext hend).bind (.pure ())
  exact hr.congr (List.append_nil _) rfl

/-- The operands of a native function are read from what spells them, if the function takes them. -/
theorem SpellsParams.reads_nativeParams (hnext : ReadsSpelled ctx levels table)
    (h : SpellsParams (Spells ctx levels table) pieces params) {f : NativeFunction}
    (htakes : f.shape.Takes params) :
    Reads (readNativeParams (readExpr ctx levels table) f) (bytesOf pieces) (loadedSizeOf pieces)
      params := by
  unfold readNativeParams
  cases hshape : f.shape with
  | prefixOp | postfixOp =>
    rw [hshape] at htakes
    match params, htakes, h with
    | [operand], _, .cons hoperand (.nil hend) =>
      exact ((hnext hoperand).bind
        ((hnext.reads_endOfOperands hend f.name).bindPure fun _ => [operand])).congr
        (bytesOf_append _ _).symm (loadedSizeOf_append _ _).symm
  | binaryOp =>
    rw [hshape] at htakes
    match params, htakes, h with
    | [lhs, rhs], _, .cons hlhs (.cons hrhs (.nil hend)) =>
      exact ((hnext hlhs).bind ((hnext hrhs).bind
        ((hnext.reads_endOfOperands hend f.name).bindPure fun _ => [lhs, rhs]))).congr
        (by simp only [bytesOf_append]) (by simp only [loadedSizeOf_append])
  | call =>
    rw [hshape] at htakes
    refine Reads.itemBound fun bound hbound => ?_
    have hlength := h.length_lt hnext
    exact h.reads hnext htakes (by omega)

/-! ## Expressions -/

/-- A native call is read from the beginning that tells its index, and from its operands. -/
theorem reads_nativePhrase {form : NativeForm} {f : NativeFunction}
    (hnext : ReadsSpelled ctx levels table)
    (hop : lookupOp? ctx.format table form.opcode = none)
    (hfirst : Opcode.firstNative ≤ form.index) (hf : ctx.natives form.index = .ok f)
    (h : SpellsParams (Spells ctx levels table) pieces params) (htakes : f.shape.Takes params) :
    Reads (readExpr ctx (levels + 1) table) (bytesOf (.native form :: pieces))
      (loadedSizeOf (.native form :: pieces)) (.call (.native f) params) := by
  have hparams : Reads (liftM (ctx.natives form.index) >>= fun function =>
      readNativeParams (readExpr ctx levels table) function >>= fun params =>
        pure (Expr.call (.native function) params)) ([] ++ bytesOf pieces)
      (0 + loadedSizeOf pieces) (.call (.native f) params) := by
    rw [hf]
    exact (Reads.pure f).bind ((h.reads_nativeParams hnext htakes).bindPure _)
  have hnative : Reads (readNative ctx.natives (readExpr ctx levels table) form.opcode)
      (form.tail ++ ([] ++ bytesOf pieces)) (form.tail.length + (0 + loadedSizeOf pieces))
      (.call (.native f) params) := by
    refine (reads_nativeForm form).bind ?_
    rw [if_neg (Nat.not_lt.2 hfirst)]
    exact hparams
  have hr : Reads (readExpr ctx (levels + 1) table)
      ([form.opcode] ++ (form.tail ++ ([] ++ bytesOf pieces)))
      (1 + (form.tail.length + (0 + loadedSizeOf pieces))) (.call (.native f) params) := by
    refine (reads_u8 form.opcode).bind ?_
    rw [hop]
    show Reads (if _ then _ else _) _ _ _
    rw [if_pos form.extendedNative_le_opcode]
    exact hnative
  refine hr.congr ?_ ?_
  · simp [Piece.bytes]
  · simp only [loadedSizeOf_cons, Piece.loadedSize, Piece.bytes, List.length_cons]
    omega

/-- One rule of the grammar for each operation: what the rule asks for is what is read behind the
opcode. -/
theorem Phrase.reads (hnext : ReadsSpelled ctx levels table)
    (hconverted : ReadsSpelled ctx levels .conversion)
    (h : Phrase ctx table (Spells ctx levels table) (Spells ctx levels .conversion) pieces e) :
    Reads (readExpr ctx (levels + 1) table) (bytesOf pieces) (loadedSizeOf pieces) e := by
  cases h with
  | atom hop => exact reads_lead hop (.pure _)
  | reference hop hform =>
    refine (reads_lead hop ((reads_objectForm hform).map _)).congr ?_ ?_ <;>
      simp [Piece.bytes, Piece.loadedSize]
  | const hop hc =>
    refine (reads_lead hop (hc.reads.map _)).congr ?_ ?_ <;> simp [Piece.bytes, Piece.loadedSize]
  | wrap hop h =>
    refine (reads_lead hop ((hnext h).map _)).congr ?_ ?_ <;> simp [Piece.bytes, Piece.loadedSize]
  | pair hop h₁ h₂ =>
    refine (reads_lead hop ((hnext h₁).bind ((hnext h₂).bindPure _))).congr ?_ ?_ <;>
      simp [Piece.bytes, Piece.loadedSize]
  | @context use skip size _ _ object member hop h₁ h₂ =>
    refine (reads_lead hop ((hnext h₁).bind ((reads_u16 skip).bind
      ((reads_u8 size).bind ((hnext h₂).bindPure _))))).congr ?_ ?_ <;>
      simp [Piece.bytes, Piece.loadedSize]
  | typed hop hform h =>
    refine (reads_lead hop ((reads_objectForm hform).bind ((hnext h).bindPure _))).congr ?_ ?_ <;>
      simp [Piece.bytes, Piece.loadedSize]
  | compare hop hform h₁ h₂ =>
    refine (reads_lead hop ((reads_objectForm hform).bind
      ((hnext h₁).bind ((hnext h₂).bindPure _)))).congr ?_ ?_ <;>
      simp [Piece.bytes, Piece.loadedSize]
  | @switch size _ _ hop h =>
    refine (reads_lead hop ((reads_u8 size).bind ((hnext h).bindPure _))).congr ?_ ?_ <;>
      simp [Piece.bytes, Piece.loadedSize]
  | @jump offset hop =>
    refine (reads_lead hop ((reads_u16 offset).map _)).congr ?_ ?_ <;>
      simp [Piece.bytes, Piece.loadedSize]
  | @jumpIfNot offset _ _ hop h =>
    refine (reads_lead hop ((reads_u16 offset).bind ((hnext h).bindPure _))).congr ?_ ?_ <;>
      simp [Piece.bytes, Piece.loadedSize]
  | @assert line debug _ _ hop h =>
    refine (reads_lead hop ((reads_u16 line).bind ((reads_u8 debug).bind
      ((hnext h).bindPure _)))).congr ?_ ?_ <;>
      simp [Piece.bytes, Piece.loadedSize]
  | @caseOf offset pieces value hop hoffset h =>
    have hvalue : Reads (if offset = defaultCaseOffset then pure (Expr.caseElse offset) else
        readExpr ctx levels table >>= fun value => pure (Expr.caseOf offset value))
        (bytesOf pieces) (loadedSizeOf pieces) (.caseOf offset value) := by
      rw [if_neg hoffset]
      exact (hnext h).bindPure _
    refine (reads_lead hop ((reads_u16 offset).bind hvalue)).congr ?_ ?_ <;>
      simp [Piece.bytes, Piece.loadedSize]
  | caseElse hop =>
    refine (reads_lead hop ((reads_u16 defaultCaseOffset).bind (.pure _))).congr ?_ ?_ <;>
      simp [Piece.bytes, Piece.loadedSize]
  | @labelTable i pieces labels hop hnone h =>
    have hlabels : Reads (itemBound >>= fun bound =>
        readLabels (ctx.tables.nameIndex? noneName) bound >>= fun labels =>
          pure (Expr.labelTable labels)) (bytesOf pieces) (loadedSizeOf pieces)
        (.labelTable labels) := by
      refine Reads.itemBound fun bound hbound => ?_
      have hlength := h.length_le
      rw [hnone]
      exact (h.reads (by omega)).bindPure _
    refine (reads_lead hop hlabels).congr ?_ ?_ <;> simp [Piece.bytes, Piece.loadedSize]
  | new hop h₁ h₂ h₃ h₄ =>
    refine (reads_lead hop ((hnext h₁).bind ((hnext h₂).bind ((hnext h₃).bind
      ((hnext h₄).bindPure _))))).congr ?_ ?_ <;>
      simp [Piece.bytes, Piece.loadedSize]
  | @skip size _ _ hop h =>
    refine (reads_lead hop ((reads_u16 size).bind ((hnext h).bindPure _))).congr ?_ ?_ <;>
      simp [Piece.bytes, Piece.loadedSize]
  | virtualCall hop hform h htakes =>
    refine (reads_lead hop ((reads_form hform).bind
      (h.reads_arguments hnext htakes _))).congr ?_ ?_ <;>
      simp [Piece.bytes, Piece.loadedSize]
  | globalCall hop hform h htakes =>
    refine (reads_lead hop ((reads_form hform).bind
      (h.reads_arguments hnext htakes _))).congr ?_ ?_ <;>
      simp [Piece.bytes, Piece.loadedSize]
  | finalCall hop hform h htakes =>
    refine (reads_lead hop ((reads_objectForm hform).bind
      (h.reads_arguments hnext htakes _))).congr ?_ ?_ <;>
      simp [Piece.bytes, Piece.loadedSize]
  | nativeCall hop hfirst hf h htakes => exact reads_nativePhrase hnext hop hfirst hf h htakes
  | @iterator stop _ _ hop h =>
    refine (reads_lead hop ((hnext h).bind ((reads_u16 stop).bindPure _))).congr ?_ ?_ <;>
      simp [Piece.bytes, Piece.loadedSize]
  | conversion hop h =>
    refine (reads_lead hop ((hconverted h).map _)).congr ?_ ?_ <;>
      simp [Piece.bytes, Piece.loadedSize]
  | cast hop h =>
    refine (reads_lead hop ((hnext h).map _)).congr ?_ ?_ <;> simp [Piece.bytes, Piece.loadedSize]
  | remove hop h₁ h₂ h₃ =>
    refine (reads_lead hop ((hnext h₁).bind ((hnext h₂).bind ((hnext h₃).bindPure _)))).congr
      ?_ ?_ <;>
      simp [Piece.bytes, Piece.loadedSize]

/-- Every spelling of an expression is read as that expression. -/
theorem Spells.reads (ctx : Context) (levels : Nat) (table : OpcodeTable) :
    ReadsSpelled ctx levels table := by
  induction levels generalizing table with
  | zero => exact nofun
  | succ levels ih => exact fun pieces e h => Phrase.reads (ih table) (ih .conversion) h

/-! ## Scripts -/

/-- Every statement takes a byte at least. -/
theorem SpellsStatements.length_le {size used : UInt32} {spelled : List (List Piece)}
    {statements : List Expr} (h : SpellsStatements ctx size used spelled statements) :
    statements.length ≤ (bytesOf spelled.flatten).length := by
  induction h with
  | nil hsize => exact Nat.le_refl _
  | cons hsize he hrest ih =>
    have hpos := length_pos_of_reads (Spells.reads ctx nestingLimit .main he)
    rw [List.length_cons, List.flatten_cons, bytesOf_append, List.length_append]
    omega

/-- Statements are read from what spells them, up to the first boundary that is not below the size.
-/
theorem SpellsStatements.reads {size used : UInt32} {bound : Nat}
    {spelled : List (List Piece)} {statements : List Expr}
    (h : SpellsStatements ctx size used spelled statements)
    (hbound : statements.length < bound) (rest : List UInt8) :
    readStatements ctx size bound ⟨bytesOf spelled.flatten ++ rest, used⟩ =
      .ok (statements, ⟨rest, used + .ofNat (loadedSizeOf spelled.flatten)⟩) := by
  induction h generalizing bound with
  | @nil used hsize =>
    obtain ⟨bound, rfl⟩ := Nat.exists_eq_add_one_of_ne_zero (Nat.ne_of_gt hbound)
    exact (readStatements_of_le hsize).trans ((Reads.pure []) rest used)
  | @cons used pieces e more es hsize he hrest ih =>
    obtain ⟨bound, rfl⟩ := Nat.exists_eq_add_one_of_ne_zero
      (Nat.ne_of_gt (Nat.lt_of_le_of_lt (Nat.zero_le _) hbound))
    rw [List.flatten_cons, bytesOf_append, List.append_assoc, loadedSizeOf_append,
      ← add_ofNat_add_ofNat]
    have hread := Spells.reads ctx nestingLimit .main he (bytesOf more.flatten ++ rest) used
    have hmore := ih (Nat.lt_of_succ_lt_succ hbound)
    exact readStatements_eq_ok.2 (.inr ⟨hsize, e, _, es, hread, hmore, rfl⟩)

/-- A script is read exactly if it is spelled by the first bytes, and the size that was counted is
that of the pieces in 32 bits. -/
theorem decodeSized_eq_ok {size used : UInt32} {input rest : List UInt8} {statements : List Expr} :
    decodeSized ctx size input = .ok ((statements, used), rest) ↔
      ∃ spelled, SpellsStatements ctx size 0 spelled statements ∧
        input = bytesOf spelled.flatten ++ rest ∧
          used = .ofNat (loadedSizeOf spelled.flatten) := by
  constructor
  · exact spelled_of_decodeSized
  · rintro ⟨spelled, hs, rfl, rfl⟩
    have hlength := hs.length_le
    have hbound : statements.length < (bytesOf spelled.flatten ++ rest).length + 1 := by
      rw [List.length_append]
      omega
    have hread := hs.reads hbound rest
    rw [UInt32.zero_add] at hread
    exact except_bind_eq_ok.2 ⟨_, hread, rfl⟩

theorem decode_of_decodeSized {size used : UInt32} {input rest : List UInt8}
    {statements : List Expr} (h : decodeSized ctx size input = .ok ((statements, used), rest)) :
    decode ctx size input = .ok (statements, rest) :=
  stateT_map_eq_ok.2 ⟨(statements, used), h, rfl⟩

/-- What follows a script has no part in reading it. -/
theorem decodeSized_append {size used : UInt32} {input rest : List UInt8}
    {statements : List Expr} (h : decodeSized ctx size input = .ok ((statements, used), rest))
    (more : List UInt8) :
    decodeSized ctx size (input ++ more) = .ok ((statements, used), rest ++ more) := by
  obtain ⟨spelled, hs, rfl, hused⟩ := decodeSized_eq_ok.1 h
  exact decodeSized_eq_ok.2 ⟨spelled, hs, List.append_assoc _ _ _, hused⟩

end UnrealPackage.Script
