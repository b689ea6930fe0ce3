import UnrealPackage.Proofs.Script.Operands
/-!
# Calls read back

Arguments are written in a row without a count, and the end of the parameters behind them. `Row`
holds the bytes of expressions in a row that are each read back; arguments and statements are read
by induction on it. A call of a native function has no opcode of its own: its first byte has to be
none of the active table, and its index is told by that byte alone or with the next one.
-/

namespace UnrealPackage.Script

open ScriptDecode

variable {ctx : Context} {levels : Nat} {table : OpcodeTable} {params : List Expr}

/-! ## Expressions in a row -/

/-- The bytes of expressions in a row, each of which is read back. -/
inductive Row (ctx : Context) (levels : Nat) (table : OpcodeTable) : List Expr → List UInt8 → Prop
  | nil : Row ctx levels table [] []
  | cons {e : Expr} {front : List UInt8} {es : List Expr} {bytes : List UInt8}
    (hfront : e.encode ctx.charset = .ok front)
    (hr : Reads (readExpr ctx levels table) front (e.loadedSize ctx.charset) e)
    (hrow : Row ctx levels table es bytes) : Row ctx levels table (e :: es) (front ++ bytes)

namespace Row

variable {es : List Expr} {bytes : List UInt8}

/-- Expressions that are read back one by one make a row. -/
theorem of_readsBack (h : ∀ e ∈ es, ReadsBack ctx levels table e) :
    ∃ bytes, Row ctx levels table es bytes := by
  induction es with
  | nil => exact ⟨[], .nil⟩
  | cons e es ih =>
    obtain ⟨front, hfront, hr⟩ := h e List.mem_cons_self
    obtain ⟨bytes, hrow⟩ := ih fun e he => h e (List.mem_cons_of_mem _ he)
    exact ⟨front ++ bytes, .cons hfront hr hrow⟩

/-- The bytes of a row are what is written for its expressions. -/
theorem encodeAll (h : Row ctx levels table es bytes) :
    Expr.encodeAll ctx.charset es = .ok bytes := by
  induction h with
  | nil => rfl
  | cons hfront hr hrow ih =>
    simp only [Expr.encodeAll, hfront, ih, except_ok_bind]
    rfl

/-- A row has no more expressions than bytes. -/
theorem length_le (h : Row ctx levels table es bytes) : es.length ≤ bytes.length := by
  induction h with
  | nil => exact Nat.le_refl _
  | cons hfront hr hrow ih =>
    have hpos := length_pos_of_reads hr
    rw [List.length_cons, List.length_append]
    omega

/-- The end of the parameters is read as an expression of its own. -/
theorem reads_end : Reads (readExpr ctx (levels + 1) table) [Atom.endOfParams.opcode] 1
    (.atom .endOfParams) := by
  have h : ReadsBack ctx (levels + 1) table (.atom .endOfParams) :=
    .atom (means_endOfParams ctx table)
  obtain ⟨bytes, hbytes, hr⟩ := h
  cases hbytes
  exact hr

/-- Arguments are read up to the end of the parameters, which is none of them. -/
theorem reads_params (h : Row ctx (levels + 1) table params bytes)
    (hend : CallShape.call.Takes params) {bound : Nat} (hbound : params.length < bound) :
    Reads (readParams (readExpr ctx (levels + 1) table) bound)
      (bytes ++ [Atom.endOfParams.opcode]) (Expr.loadedSizeAll ctx.charset params + 1) params := by
  induction h generalizing bound with
  | nil =>
    obtain ⟨bound, rfl⟩ : ∃ b, bound = b + 1 := ⟨bound - 1, by omega⟩
    have hr : Reads (readParams (readExpr ctx (levels + 1) table) (bound + 1))
        ([Atom.endOfParams.opcode] ++ []) (1 + 0) [] := reads_end.bind (.pure [])
    exact hr
  | @cons e front es bytes hfront hr hrow ih =>
    obtain ⟨bound, rfl⟩ : ∃ b, bound = b + 1 := ⟨bound - 1, by omega⟩
    have hrest := ih (fun e he => hend e (List.mem_cons_of_mem _ he))
      (Nat.lt_of_succ_lt_succ hbound)
    have he := hend e List.mem_cons_self
    have hparam : Reads (readParams (readExpr ctx (levels + 1) table) (bound + 1))
        (front ++ (bytes ++ [Atom.endOfParams.opcode]))
        (e.loadedSize ctx.charset + (Expr.loadedSizeAll ctx.charset es + 1)) (e :: es) := by
      refine hr.bind ?_
      split
      · cases he
      · exact hrest.bindPure _
    refine hparam.congr (List.append_assoc _ _ _).symm ?_
    rw [Expr.loadedSizeAll, Nat.add_assoc]

end Row

/-! ## Calls -/

namespace ReadsBack

variable {name : NameIndex} {bytes : List UInt8}

/-- The bytes of a call are those of the callee, the arguments, and the end of the parameters. -/
theorem encode_call {callee : Callee} {front : List UInt8} (hfront : callee.encode = .ok front)
    (hrow : Row ctx levels table params bytes) :
    (Expr.call callee params).encode ctx.charset =
      .ok (front ++ (bytes ++ [Atom.endOfParams.opcode])) := by
  simp only [Expr.encode, hfront, hrow.encodeAll, except_ok_bind, ← List.append_assoc]
  rfl

/-- The arguments of a call, and the end of the parameters. -/
theorem reads_arguments {callee : Callee} (hrow : Row ctx (levels + 1) table params bytes)
    (hend : CallShape.call.Takes params) :
    Reads (itemBound >>= fun bound =>
        readParams (readExpr ctx (levels + 1) table) bound >>= fun params =>
          pure (Expr.call callee params)) (bytes ++ [Atom.endOfParams.opcode])
      (Expr.loadedSizeAll ctx.charset params + 1) (.call callee params) := by
  refine Reads.itemBound fun bound hbound => ?_
  have hlength := hrow.length_le
  rw [List.length_append, List.length_singleton] at hbound
  exact (hrow.reads_params hend (by omega)).bindPure _

/-- A call by name is read back if its parameters are. -/
theorem virtualCall (hop : Means ctx table Opcode.virtualFunction .virtualFunction)
    (hrow : Row ctx (levels + 1) table params bytes) (hend : CallShape.call.Takes params) :
    ReadsBack ctx (levels + 1 + 1) table (.call (.virtualFunction name) params) := by
  have hcallee : (Callee.virtualFunction name).encode =
    .ok (Opcode.virtualFunction :: Encode.compact name) := rfl
  refine lead hop (encode_call hcallee hrow) ?_
    ((reads_compact name).bind (reads_arguments hrow hend))
  rw [Expr.loadedSize, Callee.loadedSize]
  · omega
  · exact nofun

/-- A call of a global function is read back if its parameters are. -/
theorem globalCall (hop : Means ctx table Opcode.globalFunction .globalFunction)
    (hrow : Row ctx (levels + 1) table params bytes) (hend : CallShape.call.Takes params) :
    ReadsBack ctx (levels + 1 + 1) table (.call (.globalFunction name) params) := by
  have hcallee : (Callee.globalFunction name).encode =
    .ok (Opcode.globalFunction :: Encode.compact name) := rfl
  refine lead hop (encode_call hcallee hrow) ?_
    ((reads_compact name).bind (reads_arguments hrow hend))
  rw [Expr.loadedSize, Callee.loadedSize]
  · omega
  · exact nofun

/-- A call of a function by reference is read back if its parameters are. -/
theorem finalCall {function : ObjectRef} (hop : Means ctx table Opcode.finalFunction .finalFunction)
    (hrow : Row ctx (levels + 1) table params bytes) (hend : CallShape.call.Takes params) :
    ReadsBack ctx (levels + 1 + 1) table (.call (.finalFunction function) params) := by
  have hcallee : (Callee.finalFunction function).encode =
    .ok (Opcode.finalFunction :: Encode.compactRef function) := rfl
  refine lead hop (encode_call hcallee hrow) ?_
    ((reads_object function).bind (reads_arguments hrow hend))
  rw [Expr.loadedSize, Callee.loadedSize]
  · omega
  · exact nofun

end ReadsBack

/-- The byte behind the first one of a native call, if its index takes two. -/
def NativeFunction.low (f : NativeFunction) : List UInt8 :=
  if 0xFF < f.index then [(f.index % 256).toUInt8] else []

variable {f : NativeFunction}

/-- The first byte of a native call is in the range of native calls. -/
theorem NativeFunction.extendedNative_le_opcode (hfirst : Opcode.firstNative ≤ f.index)
    (hlast : f.index ≤ Opcode.lastNative) : Opcode.extendedNative ≤ f.opcode := by
  unfold Opcode.firstNative at hfirst
  unfold Opcode.lastNative at hlast
  rw [UInt8.le_iff_toNat_le, NativeFunction.opcode]
  split <;> simp only [Opcode.extendedNative, UInt8.reduceToNat, Nat.toUInt8_eq,
    UInt8.toNat_ofNat'] <;> omega

theorem Callee.encode_native (hfirst : Opcode.firstNative ≤ f.index)
    (hlast : f.index ≤ Opcode.lastNative) :
    (Callee.native f).encode = .ok (f.opcode :: f.low) := by
  rw [Callee.encode, if_neg (by omega), NativeFunction.opcode, NativeFunction.low]
  split <;> rfl

theorem Callee.loadedSize_native : (Callee.native f).loadedSize = 1 + f.low.length := by
  rw [Callee.loadedSize, NativeFunction.low]
  split <;> rfl

/-- The index of a native call is told by its first byte alone, or by two. -/
theorem reads_nativeIndex (hfirst : Opcode.firstNative ≤ f.index)
    (hlast : f.index ≤ Opcode.lastNative) :
    Reads (readNativeIndex f.opcode) f.low f.low.length f.index := by
  unfold Opcode.firstNative at hfirst
  unfold Opcode.lastNative at hlast
  unfold readNativeIndex NativeFunction.opcode NativeFunction.low Opcode.firstNative
  by_cases h : 0xFF < f.index
  · have hhigh : (Opcode.extendedNative.toNat + f.index / 256).toUInt8.toNat =
        0x60 + f.index / 256 := by
      simp only [Opcode.extendedNative, UInt8.reduceToNat, Nat.toUInt8_eq, UInt8.toNat_ofNat']
      omega
    have hlow : (f.index % 256).toUInt8.toNat = f.index % 256 := by
      simp only [Nat.toUInt8_eq, UInt8.toNat_ofNat']
      omega
    have hindex : (0x60 + f.index / 256 - Opcode.extendedNative.toNat) * 256 + f.index % 256 =
        f.index := by
      simp only [Opcode.extendedNative, UInt8.reduceToNat]
      omega
    have hr := (reads_u8 (f.index % 256).toUInt8).map fun low : UInt8 =>
      (0x60 + f.index / 256 - Opcode.extendedNative.toNat) * 256 + low.toNat
    rw [hlow, hindex] at hr
    rw [if_pos h, if_pos h, hhigh, if_pos (by omega)]
    exact hr
  · have hsame : f.index.toUInt8.toNat = f.index := by
      simp only [Nat.toUInt8_eq, UInt8.toNat_ofNat']
      omega
    rw [if_neg h, if_neg h, hsame, if_neg (by omega)]
    exact .pure _

namespace Row

theorem reads_endOfOperands (name : String) :
    Reads (readEndOfOperands (readExpr ctx (levels + 1) table) name) [Atom.endOfParams.opcode] 1
      () :=
  (reads_end.bind (.pure ()) : Reads (readEndOfOperands _ name) ([_] ++ []) (1 + 0) ())

/-- A native call has as many operands as the function's layout says. -/
theorem reads_nativeParams {bytes : List UInt8} (h : Row ctx (levels + 1) table params bytes)
    (hparams : f.shape.Takes params) :
    Reads (readNativeParams (readExpr ctx (levels + 1) table) f)
      (bytes ++ [Atom.endOfParams.opcode]) (Expr.loadedSizeAll ctx.charset params + 1) params := by
  have hlength := h.length_le
  unfold readNativeParams
  cases hshape : f.shape with
  | prefixOp | postfixOp =>
    rw [hshape] at hparams
    obtain ⟨operand, rfl⟩ := List.length_eq_one_iff.1 hparams
    obtain _ | ⟨hfront, hr, ⟨⟩⟩ := h
    exact (hr.bind ((reads_endOfOperands f.name).bindPure fun _ => [operand])).congr (by simp) rfl
  | binaryOp =>
    rw [hshape] at hparams
    match params, hparams, h with
    | [lhs, rhs], _, .cons hfront₁ hr₁ (.cons hfront₂ hr₂ .nil) =>
      refine (hr₁.bind (hr₂.bind ((reads_endOfOperands f.name).bindPure fun _ =>
        [lhs, rhs]))).congr (by simp) ?_
      simp only [Expr.loadedSizeAll]
      omega
  | call =>
    rw [hshape] at hparams
    refine Reads.itemBound fun bound hbound => h.reads_params hparams ?_
    rw [List.length_append, List.length_singleton] at hbound
    omega

end Row

/-- A native call is read back if its first byte is no opcode of the table and the function is the
one of its index. -/
theorem ReadsBack.nativeCall {bytes : List UInt8} (hnative : ctx.natives f.index = .ok f)
    (hfirst : Opcode.firstNative ≤ f.index) (hlast : f.index ≤ Opcode.lastNative)
    (hop : lookupOp? ctx.format table f.opcode = none)
    (hrow : Row ctx (levels + 1) table params bytes) (hparams : f.shape.Takes params) :
    ReadsBack ctx (levels + 1 + 1) table (.call (.native f) params) := by
  have hrest : Reads (liftM (ctx.natives f.index) >>= fun function =>
      readNativeParams (readExpr ctx (levels + 1) table) function >>= fun params =>
        pure (Expr.call (.native function) params)) ([] ++ (bytes ++ [Atom.endOfParams.opcode]))
      (0 + (Expr.loadedSizeAll ctx.charset params + 1)) (.call (.native f) params) := by
    rw [hnative]
    exact (Reads.pure f).bind ((hrow.reads_nativeParams hparams).bindPure _)
  have hnativeRest : Reads (readNative ctx.natives (readExpr ctx (levels + 1) table) f.opcode)
      (f.low ++ ([] ++ (bytes ++ [Atom.endOfParams.opcode])))
      (f.low.length + (0 + (Expr.loadedSizeAll ctx.charset params + 1)))
      (.call (.native f) params) := by
    refine (reads_nativeIndex hfirst hlast).bind ?_
    rw [if_neg (Nat.not_lt.2 hfirst)]
    exact hrest
  refine ⟨_, encode_call (Callee.encode_native hfirst hlast) hrow, ?_⟩
  have hcall : Reads (readExpr ctx (levels + 1 + 1) table)
      ([f.opcode] ++ (f.low ++ ([] ++ (bytes ++ [Atom.endOfParams.opcode]))))
      (1 + (f.low.length + (0 + (Expr.loadedSizeAll ctx.charset params + 1))))
      (.call (.native f) params) := by
    refine (reads_u8 f.opcode).bind ?_
    rw [hop]
    show Reads (if _ then _ else _) _ _ _
    rw [if_pos (NativeFunction.extendedNative_le_opcode hfirst hlast)]
    exact hnativeRest
  refine hcall.congr rfl ?_
  rw [Expr.loadedSize, Callee.loadedSize_native]
  omega

/-- A call is read back with the callee and the arguments that it was written with. -/
theorem ReadsBack.call {callee : Callee} (hfits : callee.Fits ctx table params)
    (h : ∀ e ∈ params, ReadsBack ctx (levels + 1) table e) :
    ReadsBack ctx (levels + 1 + 1) table (.call callee params) := by
  obtain ⟨bytes, hrow⟩ := Row.of_readsBack h
  cases callee with
  | virtualFunction name => exact virtualCall hfits.1 hrow hfits.2
  | globalFunction name => exact globalCall hfits.1 hrow hfits.2
  | finalFunction function => exact finalCall hfits.1 hrow hfits.2
  | native f =>
    obtain ⟨hnative, hfirst, hlast, hop, hshape⟩ := hfits
    exact nativeCall hnative hfirst hlast hop hrow hshape

end UnrealPackage.Script
