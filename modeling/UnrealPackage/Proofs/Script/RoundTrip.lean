import UnrealPackage.Proofs.Script.Calls
/-!
# Scripts read back

`decodeSized_encodeSized`: a script of well-formed expressions is read back from its bytes, whatever
follows them, with the size that was counted when it was written.

The induction is on the levels of nesting that are left, as in the reader itself: an expression is
never higher than they are, and its operands are read with one level less.
-/

namespace UnrealPackage.Script

open ScriptDecode

variable {ctx : Context} {levels : Nat} {table : OpcodeTable} {e : Expr}

/-- A well-formed expression is read back with as many levels as it is high. -/
theorem Expr.WellFormed.readsBack (h : e.WellFormed ctx table) (hheight : e.height ≤ levels) :
    ReadsBack ctx levels table e := by
  induction levels generalizing table e with
  | zero => exact absurd hheight (Nat.not_le.2 e.height_pos)
  | succ levels ih =>
    cases e <;> simp only [Expr.height] at hheight
    case atom a => exact .atom h
    case reference use object => exact .reference h
    case const c => exact .const h.1 h.2
    case wrap w operand => exact .wrap h.1 (ih h.2 (by omega))
    case pair p first second => exact .pair h.1 (ih h.2.1 (by omega)) (ih h.2.2 (by omega))
    case context use object skip size member =>
      exact .context h.1 (ih h.2.1 (by omega)) (ih h.2.2 (by omega))
    case typed use type operand => exact .typed h.1 (ih h.2 (by omega))
    case compare c struct lhs rhs =>
      exact .compare h.1 (ih h.2.1 (by omega)) (ih h.2.2 (by omega))
    case switch size value => exact .switch h.1 (ih h.2 (by omega))
    case jump offset => exact .jump h
    case jumpIfNot offset condition => exact .jumpIfNot h.1 (ih h.2 (by omega))
    case assert line debug condition => exact .assert h.1 (ih h.2 (by omega))
    case caseOf offset value => exact .caseOf h.1 h.2.1 (ih h.2.2 (by omega))
    case caseElse offset =>
      obtain ⟨hop, rfl⟩ := h
      exact .caseElse hop
    case labelTable labels =>
      obtain ⟨hop, i, hnone, hend⟩ := h
      exact .labelTable hop hnone hend
    case new outer name flags type =>
      obtain ⟨hop, houter, hname, hflags, htype⟩ := h
      exact .new hop (ih houter (by omega)) (ih hname (by omega)) (ih hflags (by omega))
        (ih htype (by omega))
    case skip size operand => exact .skip h.1 (ih h.2 (by omega))
    case call callee params =>
      obtain ⟨hfits, hparams⟩ := h
      have hmax : Expr.heightAll params ≤ levels := by omega
      -- one level at least is left for the end of the parameters
      obtain ⟨levels, rfl⟩ := Nat.exists_eq_add_one_of_ne_zero (n := levels) (by omega)
      exact .call hfits fun e he =>
        ih (Expr.wellFormedAll_iff.1 hparams e he) (Expr.heightAll_le_iff.1 hmax e he)
    case iterator operand stop => exact .iterator h.1 (ih h.2 (by omega))
    case conversion operand => exact .conversion h.1 (ih h.2 (by omega))
    case cast opcode name operand => exact .cast h.1 (ih h.2 (by omega))
    case remove array index count =>
      obtain ⟨hop, harray, hindex, hcount⟩ := h
      exact .remove hop (ih harray (by omega)) (ih hindex (by omega)) (ih hcount (by omega))

/-- Statements are read until the size of all of them is used up, and not one more or less, as long
as the counter holds that size. -/
theorem Row.reads_statements {es : List Expr} {bytes : List UInt8}
    (h : Row ctx nestingLimit .main es bytes) {before bound : Nat}
    (hsize : before + Expr.loadedSizeAll ctx.charset es < 0x100000000)
    (hbound : es.length < bound) (rest : List UInt8) :
    readStatements ctx (.ofNat (before + Expr.loadedSizeAll ctx.charset es)) bound
        ⟨bytes ++ rest, .ofNat before⟩ =
      .ok (es, ⟨rest, .ofNat (before + Expr.loadedSizeAll ctx.charset es)⟩) := by
  induction h generalizing before bound with
  | nil =>
    obtain ⟨bound, rfl⟩ : ∃ b, bound = b + 1 := ⟨bound - 1, by omega⟩
    exact readStatements_of_le (UInt32.le_refl _)
  | @cons e front es bytes hfront hr hrow ih =>
    obtain ⟨bound, rfl⟩ : ∃ b, bound = b + 1 := ⟨bound - 1, by omega⟩
    have hpos := e.loadedSize_pos ctx.charset
    rw [Expr.loadedSizeAll, ← Nat.add_assoc] at hsize ⊢
    have hrest := ih hsize (Nat.lt_of_succ_lt_succ hbound)
    have hlt : UInt32.ofNat before < .ofNat (before + e.loadedSize ctx.charset +
        Expr.loadedSizeAll ctx.charset es) :=
      ofNat_lt_ofNat (by omega) hsize
    rw [UInt32.ofNat_add before] at hrest
    rw [List.append_assoc]
    exact readStatements_eq_ok.2 (.inr ⟨hlt, e, _, es, hr _ _, hrest, rfl⟩)

/-- A script of well-formed expressions, none nested deeper than the limit, that takes less than
4 GiB in memory can be written, and reading its bytes with the size that was counted takes exactly
these bytes, counts exactly this size, and gives the same statements. -/
theorem decodeSized_encodeSized (ctx : Context) (statements : List Expr)
    (h : ∀ e ∈ statements, e.WellFormed ctx .main ∧ e.height ≤ nestingLimit)
    (hsize : Expr.loadedSizeAll ctx.charset statements < 0x100000000) :
    ∃ bytes size, encodeSized ctx.charset statements = .ok (bytes, size) ∧
      size.toNat = Expr.loadedSizeAll ctx.charset statements ∧
      ∀ rest, decodeSized ctx size (bytes ++ rest) = .ok ((statements, size), rest) := by
  obtain ⟨bytes, hrow⟩ := Row.of_readsBack fun e he => (h e he).1.readsBack (h e he).2
  refine ⟨bytes, .ofNat (Expr.loadedSizeAll ctx.charset statements), ?_,
    UInt32.toNat_ofNat_of_lt' hsize, fun rest => ?_⟩
  · rw [encodeSized, hrow.encodeAll]
    rfl
  · have hlength := hrow.length_le
    have hbound : statements.length < (bytes ++ rest).length + 1 := by
      rw [List.length_append]
      omega
    rw [← Nat.zero_add (Expr.loadedSizeAll ctx.charset statements)] at hsize ⊢
    have hread := hrow.reads_statements hsize hbound rest
    show (readStatements ctx _ _ ⟨bytes ++ rest, .ofNat 0⟩ >>= fun q => _) = _
    rw [hread]
    rfl

/-- A reader for a package without objects, which knows one operator. -/
def Context.small : Context where
  tables := ⟨"P", [⟨"None", 0⟩], [], []⟩
  natives := NativeTable.ofList [⟨0x92, "+", false, 20, true⟩] .none
  format := .extended
  charset := .windows1252

/-- Returns a sum that is converted, and ends with labels. -/
def smallScript : List Expr :=
  [.wrap .return (.call (.native ⟨0x92, "+", false, 20, true⟩)
      [.const (.int 1), .conversion (.cast 0x5B "IntToINT64" (.atom .intOne))]),
    .const (.text "Ä"), .labelTable [⟨7, 3⟩, ⟨0, 0⟩]]

/-- A small script is written in 31 bytes of memory and read back with that size. -/
theorem decodeSized_encodeSized_small :
    ∃ bytes size, encodeSized .windows1252 smallScript = .ok (bytes, size) ∧ size.toNat = 31 ∧
      ∀ rest, decodeSized .small size (bytes ++ rest) = .ok ((smallScript, size), rest) := by
  have hsize : Expr.loadedSizeAll .windows1252 smallScript = 31 := by decide
  rw [← hsize]
  refine decodeSized_encodeSized .small smallScript (fun e he => ?_) (by decide)
  simp only [smallScript, List.mem_cons, List.not_mem_nil, or_false] at he
  rcases he with rfl | rfl | rfl
  · have hsum : Callee.Fits .small .main
        [.const (.int 1), .conversion (.cast 0x5B "IntToINT64" (.atom .intOne))]
        (.native ⟨0x92, "+", false, 20, true⟩) :=
      ⟨rfl, by decide, by decide, by decide, rfl⟩
    have hint : (Expr.const (.int 1)).WellFormed .small .main := ⟨by decide, trivial⟩
    have hcast : (Expr.conversion (.cast 0x5B "IntToINT64" (.atom .intOne))).WellFormed
        .small .main := ⟨by decide, by decide, show Means _ _ _ _ by decide⟩
    exact ⟨⟨by decide, hsum, hint, hcast, trivial⟩, by decide⟩
  · exact ⟨⟨by decide, by decide⟩, by decide⟩
  · exact ⟨⟨by decide, 0, rfl, by decide⟩, by decide⟩

/-! ## Scripts that are not read back -/

/-- So many returns around nothing. -/
def returns : Nat → Expr
  | 0 => .atom .nothing
  | n + 1 => .wrap .return (returns n)

/-- The bytes of so many returns around nothing. -/
def returnBytes (n : Nat) : List UInt8 :=
  List.replicate n Wrapper.return.opcode ++ [Atom.nothing.opcode]

theorem means_return (ctx : Context) : Means ctx .main Wrapper.return.opcode (.wrap .return) := by
  unfold Means
  cases ctx.format <;> rfl

theorem means_nothing (ctx : Context) : Means ctx .main Atom.nothing.opcode (.atom .nothing) := by
  unfold Means
  cases ctx.format <;> rfl

theorem wellFormed_returns (ctx : Context) (n : Nat) : (returns n).WellFormed ctx .main := by
  induction n with
  | zero => exact means_nothing ctx
  | succ n ih => exact ⟨means_return ctx, ih⟩

theorem height_returns (n : Nat) : (returns n).height = n + 1 := by
  induction n with
  | zero => rfl
  | succ n ih => rw [returns, Expr.height, ih, Nat.add_comm]

/-- So many returns are written by their opcodes. -/
theorem encode_returns (cs : Charset) (n : Nat) : (returns n).encode cs = .ok (returnBytes n) := by
  induction n with
  | zero => rfl
  | succ n ih =>
    rw [returns, Expr.encode, ih]
    rfl

theorem loadedSize_returns (cs : Charset) (n : Nat) : (returns n).loadedSize cs = n + 1 := by
  induction n with
  | zero => rfl
  | succ n ih => rw [returns, Expr.loadedSize, ih, Nat.add_comm]

/-- Each return takes one byte, in the image and in memory. -/
theorem encodeSized_returns (cs : Charset) (n : Nat) :
    encodeSized cs [returns n] = .ok (returnBytes n, .ofNat (n + 1)) := by
  rw [encodeSized, Expr.encodeAll, encode_returns, Expr.loadedSizeAll, loadedSize_returns]
  show Except.ok (returnBytes n ++ [], _) = _
  rw [List.append_nil]
  rfl

/-- A script whose first statement is refused is refused. -/
theorem decodeSized_of_error {size : UInt32} {input : List UInt8} {e : Error} (hsize : 0 < size)
    (h : readExpr ctx nestingLimit .main ⟨input, 0⟩ = .error e) :
    decodeSized ctx size input = .error e := by
  rw [decodeSized, readStatements_of_lt hsize]
  show ((readExpr ctx nestingLimit .main ⟨input, 0⟩ >>= fun q => _) >>= fun q => _) = _
  rw [h]
  rfl

/-- Nothing is read of a script of size zero. -/
theorem decodeSized_zero (ctx : Context) (input : List UInt8) :
    decodeSized ctx 0 input = .ok (([], 0), input) :=
  rfl

/-- As many returns as there are levels leave none for what is returned. -/
theorem readExpr_returns (levels : Nat) (rest : List UInt8) (used : UInt32) :
    readExpr ctx levels .main ⟨List.replicate levels Wrapper.return.opcode ++ rest, used⟩ =
      .error (.expressionTooDeep nestingLimit) := by
  induction levels generalizing used with
  | zero => rfl
  | succ levels ih =>
    rw [List.replicate_succ, List.cons_append, readExpr_lead (means_return ctx)]
    show (readExpr ctx levels .main ⟨_, _⟩ >>= fun q => _) = _
    rw [ih]
    rfl

/-- A constant text of `n` letters takes two bytes more than these, its opcode and the zero behind
it. -/
theorem encodeSized_letters (n : Nat) :
    encodeSized .windows1252 [.const (.text (letters n))] =
      .ok (ConstKind.text.opcode :: (List.replicate n 0x41 ++ [0]), .ofNat (n + 2)) := by
  have hstored : Charset.encodeLossy .windows1252 (letters n) = List.replicate n 0x41 :=
    Charset.encodeLossy_of_encode? (Charset.encode?_letters rfl n)
  have hencode : Const.encode .windows1252 (.text (letters n)) = List.replicate n 0x41 ++ [0] := by
    rw [Const.encode, Encode.textUntilZero, hstored]
  have hsize : Const.loadedSize .windows1252 (.text (letters n)) = n + 1 := by
    show (Const.encode .windows1252 (.text (letters n))).length = _
    rw [hencode, List.length_append, List.length_replicate]
    rfl
  rw [encodeSized, Expr.encodeAll, Expr.encode, hencode, Expr.loadedSizeAll, Expr.loadedSize,
    hsize]
  show Except.ok (ConstKind.text.opcode :: (List.replicate n 0x41 ++ [0]) ++ [], _) = _
  rw [List.append_nil, Expr.loadedSizeAll]
  congr 3
  omega

/-- A constant text of letters is well-formed. -/
theorem wellFormed_letters (n : Nat) :
    (Expr.const (.text (letters n))).WellFormed .small .main := by
  have hzero : '\x00' ∉ (letters n).toList := by
    intro h
    exact absurd (eq_of_mem_letters h) (by decide)
  have hstored : (Charset.windows1252.encode? (letters n)).isSome := by
    rw [Charset.encode?_letters rfl]
    rfl
  have hop : Means .small .main ConstKind.text.opcode (.const .text) := by decide
  exact ⟨hop, hzero, hstored⟩

/-- Neither limit can be spared. One level more than there are is written and not read. A text that
takes 4 GiB in memory with its opcode is written as a script of size zero, and nothing is read with
that size. -/
theorem decodeSized_encodeSized_limits :
    ((returns 128).WellFormed .small .main ∧
      encodeSized .windows1252 [returns 128] = .ok (returnBytes 128, 129) ∧
      decodeSized .small 129 (returnBytes 128) = .error (.expressionTooDeep nestingLimit)) ∧
    (Expr.const (.text (letters 0xFFFFFFFE))).WellFormed .small .main ∧
      ∃ bytes, encodeSized .windows1252 [.const (.text (letters 0xFFFFFFFE))] = .ok (bytes, 0) ∧
        decodeSized .small 0 bytes = .ok (([], 0), bytes) := by
  refine ⟨⟨wellFormed_returns _ _, encodeSized_returns _ _, ?_⟩, wellFormed_letters _, _,
    encodeSized_letters _, ?_⟩
  · exact decodeSized_of_error (by decide) (readExpr_returns nestingLimit _ 0)
  · exact decodeSized_zero _ _

end UnrealPackage.Script
