import UnrealPackage.Proofs.Script.Spelling
/-!
# What the reader accepts is spelled

`readExpr_accepts`: if the reader takes an expression off its input, the bytes that it took are
pieces that spell the expression, and what it counted is their size in memory. This is what a single
step of the reader can do, said once; everything about accepted scripts is shown from the rules of
the grammar.

`Accepts d R` says of any reader that what it takes are pieces in the relation `R` to its result.
Steps of a `do` block are taken off one by one with `Accepts.step`, which leaves the pieces between
two positions.
-/

namespace UnrealPackage.Script

/-! ## Opcodes -/

/-- The opcode of an operation in both revisions, if it has a fixed one. -/
def Op.opcode? : Op → Option UInt8
  | .atom a => some a.opcode
  | .reference use => some use.opcode
  | .const kind => some kind.opcode
  | .wrap w => some w.opcode
  | .pair p => some p.opcode
  | .context use => some use.opcode
  | .typed use => some use.opcode
  | .compare c => some c.opcode
  | .switch => some Opcode.switch
  | .jump => some Opcode.jump
  | .jumpIfNot => some Opcode.jumpIfNot
  | .assert => some Opcode.assert
  | .case => some Opcode.case
  | .labelTable => some Opcode.labelTable
  | .new => some Opcode.new
  | .skip => some Opcode.skip
  | .virtualFunction => some Opcode.virtualFunction
  | .finalFunction => some Opcode.finalFunction
  | .globalFunction => some Opcode.globalFunction
  | .iterator => some Opcode.iterator
  | .conversion => some Opcode.conversion
  | .remove => some Opcode.remove
  | .cast _ => none

/-- Every entry of the main table is the opcode that is written for it. -/
theorem opcode?_of_mem_opcodeTable :
    ∀ entry ∈ opcodeTable, entry.2.opcode? = some entry.1 := by
  decide

variable {ctx : Context} {table : OpcodeTable} {opcode : UInt8} {op : Op}

/-- What an opcode means in the main table has this opcode, or is a cast. -/
theorem opcode?_of_mainOp? {format : ScriptFormat} (h : mainOp? format opcode = some op) :
    op.opcode? = none ∨ op.opcode? = some opcode := by
  unfold mainOp? at h
  split at h
  · next hlookup =>
    split at h
    · cases h
    · cases h
      exact .inr (opcode?_of_mem_opcodeTable _ (mem_of_lookup hlookup))
  · obtain ⟨name, -, rfl⟩ := Option.map_eq_some_iff.1 h
    exact .inl rfl

/-- An opcode that means an operation is the one that is written for it; only casts have several. -/
theorem Means.opcode_eq {canonical : UInt8} (h : Means ctx table opcode op)
    (hop : op.opcode? = some canonical) : opcode = canonical := by
  have hcases : op.opcode? = none ∨ op.opcode? = some opcode := by
    unfold Means lookupOp? at h
    split at h
    · cases h
      exact .inl rfl
    · exact opcode?_of_mainOp? h
  rcases hcases with hnone | hsome
  · rw [hop] at hnone
    cases hnone
  · exact Option.some.inj (hsome.symm.trans hop)

/-! ## Pieces between positions -/

/-- Whether the pieces lie between two positions of a reader. -/
structure Spans (p : Position) (pieces : List Piece) (q : Position) : Prop where
  rest : p.rest = bytesOf pieces ++ q.rest
  used : q.used = p.used + .ofNat (loadedSizeOf pieces)

namespace Spans

variable {p m q : Position} {pieces more : List Piece}

theorem nil (p : Position) : Spans p [] p :=
  ⟨rfl, (UInt32.add_zero _).symm⟩

theorem trans (h : Spans p pieces m) (h' : Spans m more q) : Spans p (pieces ++ more) q := by
  constructor
  · rw [h.rest, h'.rest, bytesOf_append, List.append_assoc]
  · rw [h'.used, h.used, add_ofNat_add_ofNat, loadedSizeOf_append]

end Spans

variable {α β : Type} {d : ScriptDecode α} {f : α → ScriptDecode β} {R : List Piece → α → Prop}
  {p q : Position} {a : α} {b : β}

/-- Whatever `d` takes off its input are pieces that are in the relation `R` to its result. -/
def Accepts (d : ScriptDecode α) (R : List Piece → α → Prop) : Prop :=
  ∀ ⦃p a q⦄, d p = .ok (a, q) → ∃ pieces, R pieces a ∧ Spans p pieces q

/-- The first step of a sequence. -/
theorem Accepts.step (h : Accepts d R) (hrun : (d >>= f) p = .ok (b, q)) :
    ∃ a m pieces, R pieces a ∧ Spans p pieces m ∧ f a m = .ok (b, q) := by
  obtain ⟨a, m, hd, hf⟩ := stateT_bind_eq_ok.1 hrun
  obtain ⟨pieces, hR, hspans⟩ := h hd
  exact ⟨a, m, pieces, hR, hspans, hf⟩

/-- A step behind which nothing is read. -/
theorem Accepts.last {g : α → β} (h : Accepts d R) (hrun : (g <$> d) p = .ok (b, q)) :
    ∃ a pieces, R pieces a ∧ Spans p pieces q ∧ g a = b := by
  obtain ⟨a, hd, hg⟩ := stateT_map_eq_ok.1 hrun
  obtain ⟨pieces, hR, hspans⟩ := h hd
  exact ⟨a, pieces, hR, hspans, hg⟩

/-- A loop gets one step more than bytes are left where it begins. -/
theorem itemBound_bind_eq_ok {k : Nat → ScriptDecode β} :
    (ScriptDecode.itemBound >>= k) p = .ok (b, q) ↔ k (p.rest.length + 1) p = .ok (b, q) :=
  Iff.rfl

/-! ## Values of one piece -/

namespace ScriptDecode

/-- A value that is read from one plain piece. -/
theorem accepts_plain {d : Decode α} (hd : ∀ {input a rest}, d input = .ok (a, rest) →
    ∃ front, R [.plain front] a ∧ input = front ++ rest) : Accepts (plain d) R := by
  intro p a q h
  obtain ⟨⟨a', rest⟩, hread, hpure⟩ := except_bind_eq_ok.1 h
  cases hpure
  obtain ⟨front, hR, hfront⟩ := hd hread
  refine ⟨_, hR, ?_, ?_⟩
  · rw [hfront]
    simp [Piece.bytes]
  · show p.used + .ofNat (p.rest.length - rest.length) = _
    rw [hfront, List.length_append, Nat.add_sub_cancel]
    simp [Piece.loadedSize, Piece.bytes]

theorem accepts_u8 : Accepts u8 fun pieces v => pieces = [.plain [v]] :=
  accepts_plain fun h => ⟨_, rfl, Decode.u8_eq_ok.1 h⟩

theorem accepts_u16 : Accepts u16 fun pieces v => pieces = [.plain (Encode.u16 v)] :=
  accepts_plain fun h => ⟨_, rfl, Decode.u16_eq_ok.1 h⟩

theorem accepts_i32 : Accepts i32 fun pieces v => pieces = [.plain (Encode.i32 v)] :=
  accepts_plain fun h => ⟨_, rfl, Decode.i32_eq_ok.1 h⟩

theorem accepts_single : Accepts single fun pieces v => pieces = [.plain (Encode.single v)] :=
  accepts_plain fun h => ⟨_, rfl, Decode.single_eq_ok.1 h⟩

/-- A compact integer takes four bytes in memory whatever its form is. -/
theorem accepts_compact : Accepts compact fun pieces v => ∃ form,
    ∃ h : Decode.Reads Decode.compact form v, pieces = [.compact v form h] := by
  intro p v q h
  obtain ⟨⟨v', rest⟩, hread, hpure⟩ := except_bind_eq_ok.1 h
  cases hpure
  obtain ⟨form, hfront, hform⟩ := Decode.framed_compact hread
  refine ⟨_, ⟨form, hform, rfl⟩, ?_, rfl⟩
  rw [hfront]
  simp [Piece.bytes]

/-- A reference is spelled by any form of its compact integer. -/
theorem accepts_object : Accepts object fun pieces r => ∃ form,
    ∃ h : Decode.Reads Decode.compact form r.value, pieces = [.compact r.value form h] := by
  intro p r q h
  obtain ⟨⟨r', rest⟩, hread, hpure⟩ := except_bind_eq_ok.1 h
  cases hpure
  obtain ⟨v, hv, rfl⟩ := Decode.map_eq_ok.1 hread
  obtain ⟨form, hfront, hform⟩ := Decode.framed_compact hv
  refine ⟨_, ⟨form, hform, rfl⟩, ?_, rfl⟩
  rw [hfront]
  simp [Piece.bytes]

end ScriptDecode

open ScriptDecode

/-! ## Constants and labels -/

/-- A text up to its zero is spelled by its bytes. -/
theorem accepts_textUntilZero (cs : Charset) :
    Accepts (plain (Decode.textUntilZero cs)) fun pieces s => SpellsConst cs pieces (.text s) := by
  refine accepts_plain fun h => ?_
  obtain ⟨stored, hstored, rfl⟩ := Decode.map_eq_ok.1 h
  obtain ⟨hzero, hfront⟩ := Decode.untilZero_eq_ok.1 hstored
  exact ⟨_, .text hzero, hfront⟩

/-- A wide text up to its zero is spelled by its units. -/
theorem accepts_wideTextUntilZero (cs : Charset) (e : Error) :
    Accepts (plain (Decode.wideTextUntilZero e)) fun pieces s =>
      SpellsConst cs pieces (.wideText s) := by
  refine accepts_plain fun h => ?_
  obtain ⟨units, hzero, hfront, hs⟩ := Decode.split_of_wideTextUntilZero h
  exact ⟨_, .wideText hzero hs, hfront⟩

/-- A constant that was read is of the kind that was asked for. -/
theorem accepts_const (cs : Charset) (kind : ConstKind) :
    Accepts (readConst cs kind) fun pieces c => c.kind = kind ∧ SpellsConst cs pieces c := by
  intro p c q h
  cases kind with
  | int =>
    obtain ⟨v, _, rfl, ht, rfl⟩ := accepts_i32.last h
    exact ⟨_, ⟨rfl, .int v⟩, ht⟩
  | float =>
    obtain ⟨v, _, rfl, ht, rfl⟩ := accepts_single.last h
    exact ⟨_, ⟨rfl, .float v⟩, ht⟩
  | text =>
    obtain ⟨s, pieces, hs, ht, rfl⟩ := (accepts_textUntilZero cs).last h
    exact ⟨pieces, ⟨rfl, hs⟩, ht⟩
  | wideText =>
    obtain ⟨s, pieces, hs, ht, rfl⟩ := (accepts_wideTextUntilZero cs _).last h
    exact ⟨pieces, ⟨rfl, hs⟩, ht⟩
  | name =>
    obtain ⟨n, _, ⟨form, hform, rfl⟩, ht, rfl⟩ := accepts_compact.last h
    exact ⟨_, ⟨rfl, .name hform⟩, ht⟩
  | byte =>
    obtain ⟨v, _, rfl, ht, rfl⟩ := accepts_u8.last h
    exact ⟨_, ⟨rfl, .byte v⟩, ht⟩
  | shortInt =>
    obtain ⟨v, _, rfl, ht, rfl⟩ := accepts_u8.last h
    exact ⟨_, ⟨rfl, .shortInt v⟩, ht⟩
  | rotator =>
    obtain ⟨pitch, m₁, _, rfl, ht₁, h₁⟩ := accepts_i32.step h
    obtain ⟨yaw, m₂, _, rfl, ht₂, h₂⟩ := accepts_i32.step h₁
    obtain ⟨roll, m₃, _, rfl, ht₃, h₃⟩ := accepts_i32.step h₂
    obtain ⟨rfl, rfl⟩ := stateT_pure_eq_ok.1 h₃
    exact ⟨_, ⟨rfl, .rotator pitch yaw roll⟩, ht₁.trans (ht₂.trans ht₃)⟩
  | vector =>
    obtain ⟨x, m₁, _, rfl, ht₁, h₁⟩ := accepts_single.step h
    obtain ⟨y, m₂, _, rfl, ht₂, h₂⟩ := accepts_single.step h₁
    obtain ⟨z, m₃, _, rfl, ht₃, h₃⟩ := accepts_single.step h₂
    obtain ⟨rfl, rfl⟩ := stateT_pure_eq_ok.1 h₃
    exact ⟨_, ⟨rfl, .vector x y z⟩, ht₁.trans (ht₂.trans ht₃)⟩

/-- Labels are read only if the name of the end is in the table. -/
theorem accepts_labels (noneIndex : Option Nat) (bound : Nat) :
    Accepts (readLabels noneIndex bound) fun pieces labels =>
      ∃ i, noneIndex = some i ∧ SpellsLabels (Int32.ofNat i) pieces labels := by
  induction bound with
  | zero => exact nofun
  | succ bound ih =>
    intro p labels q h
    obtain ⟨name, m₁, _, ⟨form, hform, rfl⟩, ht₁, h₁⟩ := accepts_compact.step h
    obtain ⟨offset, m₂, _, rfl, ht₂, h₂⟩ := accepts_i32.step h₁
    cases noneIndex with
    | none => cases h₂
    | some i =>
      by_cases hname : name = Int32.ofNat i
      · simp only [if_pos hname] at h₂
        obtain ⟨rfl, rfl⟩ := stateT_pure_eq_ok.1 h₂
        exact ⟨_, ⟨i, rfl, .last (l := ⟨name, offset⟩) hform hname⟩, ht₁.trans ht₂⟩
      · simp only [if_neg hname] at h₂
        obtain ⟨labels', m₃, more, ⟨_, hi, hmore⟩, ht₃, h₃⟩ := ih.step h₂
        cases hi
        obtain ⟨rfl, rfl⟩ := stateT_pure_eq_ok.1 h₃
        exact ⟨_, ⟨i, rfl, .cons (l := ⟨name, offset⟩) hform hname hmore⟩,
          ht₁.trans (ht₂.trans ht₃)⟩

/-! ## Operands -/

variable {nextDecode convertedDecode : ScriptDecode Expr} {next converted : Spelling}

theorem Expr.isEnd_eq_false_iff {e : Expr} : e.isEnd = false ↔ e ≠ .atom .endOfParams := by
  cases e with
  | atom a => cases a <;> simp [Expr.isEnd]
  | _ => simp [Expr.isEnd]

/-- Arguments end with the first expression that is the end of the parameters. -/
theorem accepts_params (hnext : Accepts nextDecode next) (bound : Nat) :
    Accepts (readParams nextDecode bound) fun pieces params =>
      SpellsParams next pieces params ∧ CallShape.call.Takes params := by
  induction bound with
  | zero => exact nofun
  | succ bound ih =>
    intro p params q h
    obtain ⟨e, m₁, front, he, ht₁, h₁⟩ := hnext.step h
    split at h₁
    · obtain ⟨rfl, rfl⟩ := stateT_pure_eq_ok.1 h₁
      exact ⟨front, ⟨.nil he, nofun⟩, ht₁⟩
    · next hend =>
      obtain ⟨params', m₂, more, ⟨hmore, htakes⟩, ht₂, h₂⟩ := ih.step h₁
      obtain ⟨rfl, rfl⟩ := stateT_pure_eq_ok.1 h₂
      refine ⟨_, ⟨.cons he hmore, ?_⟩, ht₁.trans ht₂⟩
      intro param hparam
      rcases List.mem_cons.1 hparam with rfl | hparam
      · exact Expr.isEnd_eq_false_iff.2 hend
      · exact htakes param hparam

/-- The end of the operands is spelled as any expression, and has to be that one. -/
theorem accepts_endOfOperands (hnext : Accepts nextDecode next) (name : String) :
    Accepts (readEndOfOperands nextDecode name) fun pieces _ =>
      next pieces (.atom .endOfParams) := by
  intro p _ q h
  obtain ⟨e, m₁, pieces, he, ht₁, h₁⟩ := hnext.step h
  split at h₁
  · obtain ⟨-, rfl⟩ := stateT_pure_eq_ok.1 h₁
    exact ⟨pieces, he, ht₁⟩
  · cases h₁

/-- A native call has as many operands as its layout says, and then the end of the parameters. -/
theorem accepts_nativeParams (hnext : Accepts nextDecode next) (f : NativeFunction) :
    Accepts (readNativeParams nextDecode f) fun pieces params =>
      SpellsParams next pieces params ∧ f.shape.Takes params := by
  intro p params q h
  unfold readNativeParams at h
  cases hshape : f.shape with
  | prefixOp | postfixOp =>
    rw [hshape] at h
    obtain ⟨operand, m₁, front, hoperand, ht₁, h₁⟩ := hnext.step h
    obtain ⟨_, m₂, last, hend, ht₂, h₂⟩ := (accepts_endOfOperands hnext f.name).step h₁
    obtain ⟨rfl, rfl⟩ := stateT_pure_eq_ok.1 h₂
    exact ⟨_, ⟨.cons hoperand (.nil hend), rfl⟩, ht₁.trans ht₂⟩
  | binaryOp =>
    rw [hshape] at h
    obtain ⟨lhs, m₁, front₁, hlhs, ht₁, h₁⟩ := hnext.step h
    obtain ⟨rhs, m₂, front₂, hrhs, ht₂, h₂⟩ := hnext.step h₁
    obtain ⟨_, m₃, last, hend, ht₃, h₃⟩ := (accepts_endOfOperands hnext f.name).step h₂
    obtain ⟨rfl, rfl⟩ := stateT_pure_eq_ok.1 h₃
    exact ⟨_, ⟨.cons hlhs (.cons hrhs (.nil hend)), rfl⟩, ht₁.trans (ht₂.trans ht₃)⟩
  | call =>
    rw [hshape] at h
    exact accepts_params hnext _ (itemBound_bind_eq_ok.1 h)

/-- The byte that was read already, and those behind it, tell the index of a native function. -/
theorem accepts_nativeIndex {index : Nat} (hopcode : Opcode.extendedNative ≤ opcode)
    (h : readNativeIndex opcode p = .ok (index, q)) :
    ∃ form : NativeForm, form.opcode = opcode ∧ form.index = index ∧
      p.rest = form.tail ++ q.rest ∧ q.used = p.used + .ofNat form.tail.length := by
  unfold readNativeIndex at h
  split at h
  · next hlt =>
    obtain ⟨low, _, rfl, ht, rfl⟩ := accepts_u8.last h
    exact ⟨.long opcode low hopcode hlt, rfl, rfl, ht.rest, ht.used⟩
  · next hge =>
    obtain ⟨rfl, rfl⟩ := stateT_pure_eq_ok.1 h
    exact ⟨.short opcode (Nat.not_lt.1 hge), rfl, rfl, rfl, (UInt32.add_zero _).symm⟩

/-- A native call is spelled by the beginning, which was read in part, and its operands. -/
theorem accepts_native {e : Expr} {start : Position} (hnext : Accepts nextDecode next)
    (hop : lookupOp? ctx.format table opcode = none) (hopcode : Opcode.extendedNative ≤ opcode)
    (hstart : Spans start [.plain [opcode]] p)
    (h : readNative ctx.natives nextDecode opcode p = .ok (e, q)) :
    ∃ pieces, Phrase ctx table next converted pieces e ∧ Spans start pieces q := by
  obtain ⟨index, m₁, hindex, h₁⟩ := stateT_bind_eq_ok.1 h
  obtain ⟨form, rfl, rfl, hrest, hused⟩ := accepts_nativeIndex hopcode hindex
  obtain ⟨hfirst, h₂⟩ := stateT_refuse_eq_ok.1 h₁
  obtain ⟨f, hf, h₃⟩ := stateT_lift_bind_eq_ok.1 h₂
  obtain ⟨params, m₂, pieces, ⟨hparams, htakes⟩, ht, h₄⟩ := (accepts_nativeParams hnext f).step h₃
  obtain ⟨rfl, rfl⟩ := stateT_pure_eq_ok.1 h₄
  have hbegin : Spans start [.native form] m₁ := by
    constructor
    · rw [hstart.rest, hrest]
      simp [Piece.bytes]
    · rw [hused, hstart.used, add_ofNat_add_ofNat]
      simp [Piece.loadedSize, Piece.bytes, Nat.add_comm]
  exact ⟨_, .nativeCall hop (Nat.not_lt.1 hfirst) hf hparams htakes, hbegin.trans ht⟩

/-! ## Expressions -/

/-- One rule of the grammar for each operation: what is read behind the opcode is what the rule asks
for. -/
theorem accepts_operands {e : Expr} {start : Position} (hnext : Accepts nextDecode next)
    (hconverted : Accepts convertedDecode converted) (hop : Means ctx table opcode op)
    (ht : Spans start [.plain [opcode]] p)
    (h : readOperands ctx nextDecode convertedDecode opcode op p = .ok (e, q)) :
    ∃ pieces, Phrase ctx table next converted pieces e ∧ Spans start pieces q := by
  cases op with
  | atom a =>
    obtain rfl := hop.opcode_eq rfl
    obtain ⟨rfl, rfl⟩ := stateT_pure_eq_ok.1 h
    exact ⟨_, .atom hop, ht⟩
  | reference use =>
    obtain rfl := hop.opcode_eq rfl
    obtain ⟨object, _, ⟨form, hform, rfl⟩, ht₁, rfl⟩ := accepts_object.last h
    exact ⟨_, .reference hop hform, ht.trans ht₁⟩
  | const kind =>
    obtain rfl := hop.opcode_eq rfl
    obtain ⟨c, pieces, ⟨rfl, hc⟩, ht₁, rfl⟩ := (accepts_const ctx.charset kind).last h
    exact ⟨_, .const hop hc, ht.trans ht₁⟩
  | wrap w =>
    obtain rfl := hop.opcode_eq rfl
    obtain ⟨operand, pieces, hs, ht₁, rfl⟩ := hnext.last h
    exact ⟨_, .wrap hop hs, ht.trans ht₁⟩
  | pair k =>
    obtain rfl := hop.opcode_eq rfl
    obtain ⟨first, m₁, pieces₁, hs₁, ht₁, h₁⟩ := hnext.step h
    obtain ⟨second, m₂, pieces₂, hs₂, ht₂, h₂⟩ := hnext.step h₁
    obtain ⟨rfl, rfl⟩ := stateT_pure_eq_ok.1 h₂
    exact ⟨_, .pair hop hs₁ hs₂, ht.trans (ht₁.trans ht₂)⟩
  | context use =>
    obtain rfl := hop.opcode_eq rfl
    obtain ⟨object, m₁, pieces₁, hs₁, ht₁, h₁⟩ := hnext.step h
    obtain ⟨skip, m₂, _, rfl, ht₂, h₂⟩ := accepts_u16.step h₁
    obtain ⟨size, m₃, _, rfl, ht₃, h₃⟩ := accepts_u8.step h₂
    obtain ⟨member, m₄, pieces₂, hs₂, ht₄, h₄⟩ := hnext.step h₃
    obtain ⟨rfl, rfl⟩ := stateT_pure_eq_ok.1 h₄
    exact ⟨_, .context hop hs₁ hs₂, ht.trans (ht₁.trans (ht₂.trans (ht₃.trans ht₄)))⟩
  | typed use =>
    obtain rfl := hop.opcode_eq rfl
    obtain ⟨type, m₁, _, ⟨form, hform, rfl⟩, ht₁, h₁⟩ := accepts_object.step h
    obtain ⟨operand, m₂, pieces, hs, ht₂, h₂⟩ := hnext.step h₁
    obtain ⟨rfl, rfl⟩ := stateT_pure_eq_ok.1 h₂
    exact ⟨_, .typed hop hform hs, ht.trans (ht₁.trans ht₂)⟩
  | compare c =>
    obtain rfl := hop.opcode_eq rfl
    obtain ⟨struct, m₁, _, ⟨form, hform, rfl⟩, ht₁, h₁⟩ := accepts_object.step h
    obtain ⟨lhs, m₂, pieces₁, hs₁, ht₂, h₂⟩ := hnext.step h₁
    obtain ⟨rhs, m₃, pieces₂, hs₂, ht₃, h₃⟩ := hnext.step h₂
    obtain ⟨rfl, rfl⟩ := stateT_pure_eq_ok.1 h₃
    exact ⟨_, .compare hop hform hs₁ hs₂, ht.trans (ht₁.trans (ht₂.trans ht₃))⟩
  | switch =>
    obtain rfl := hop.opcode_eq rfl
    obtain ⟨size, m₁, _, rfl, ht₁, h₁⟩ := accepts_u8.step h
    obtain ⟨value, m₂, pieces, hs, ht₂, h₂⟩ := hnext.step h₁
    obtain ⟨rfl, rfl⟩ := stateT_pure_eq_ok.1 h₂
    exact ⟨_, .switch hop hs, ht.trans (ht₁.trans ht₂)⟩
  | jump =>
    obtain rfl := hop.opcode_eq rfl
    obtain ⟨offset, _, rfl, ht₁, rfl⟩ := accepts_u16.last h
    exact ⟨_, .jump hop, ht.trans ht₁⟩
  | jumpIfNot =>
    obtain rfl := hop.opcode_eq rfl
    obtain ⟨offset, m₁, _, rfl, ht₁, h₁⟩ := accepts_u16.step h
    obtain ⟨condition, m₂, pieces, hs, ht₂, h₂⟩ := hnext.step h₁
    obtain ⟨rfl, rfl⟩ := stateT_pure_eq_ok.1 h₂
    exact ⟨_, .jumpIfNot hop hs, ht.trans (ht₁.trans ht₂)⟩
  | assert =>
    obtain rfl := hop.opcode_eq rfl
    obtain ⟨line, m₁, _, rfl, ht₁, h₁⟩ := accepts_u16.step h
    obtain ⟨debug, m₂, _, rfl, ht₂, h₂⟩ := accepts_u8.step h₁
    obtain ⟨condition, m₃, pieces, hs, ht₃, h₃⟩ := hnext.step h₂
    obtain ⟨rfl, rfl⟩ := stateT_pure_eq_ok.1 h₃
    exact ⟨_, .assert hop hs, ht.trans (ht₁.trans (ht₂.trans ht₃))⟩
  | case =>
    obtain rfl := hop.opcode_eq rfl
    obtain ⟨offset, m₁, _, rfl, ht₁, h₁⟩ := accepts_u16.step h
    -- the offset alone tells whether a value follows
    by_cases hoffset : offset = defaultCaseOffset
    · rw [if_pos hoffset] at h₁
      obtain ⟨rfl, rfl⟩ := stateT_pure_eq_ok.1 h₁
      subst hoffset
      exact ⟨_, .caseElse hop, ht.trans ht₁⟩
    · rw [if_neg hoffset] at h₁
      obtain ⟨value, m₂, pieces, hs, ht₂, h₂⟩ := hnext.step h₁
      obtain ⟨rfl, rfl⟩ := stateT_pure_eq_ok.1 h₂
      exact ⟨_, .caseOf hop hoffset hs, ht.trans (ht₁.trans ht₂)⟩
  | labelTable =>
    obtain rfl := hop.opcode_eq rfl
    obtain ⟨labels, m₁, pieces, ⟨i, hnone, hs⟩, ht₁, h₁⟩ :=
      (accepts_labels _ _).step (itemBound_bind_eq_ok.1 h)
    obtain ⟨rfl, rfl⟩ := stateT_pure_eq_ok.1 h₁
    exact ⟨_, .labelTable hop hnone hs, ht.trans ht₁⟩
  | new =>
    obtain rfl := hop.opcode_eq rfl
    obtain ⟨outer, m₁, pieces₁, hs₁, ht₁, h₁⟩ := hnext.step h
    obtain ⟨name, m₂, pieces₂, hs₂, ht₂, h₂⟩ := hnext.step h₁
    obtain ⟨flags, m₃, pieces₃, hs₃, ht₃, h₃⟩ := hnext.step h₂
    obtain ⟨type, m₄, pieces₄, hs₄, ht₄, h₄⟩ := hnext.step h₃
    obtain ⟨rfl, rfl⟩ := stateT_pure_eq_ok.1 h₄
    exact ⟨_, .new hop hs₁ hs₂ hs₃ hs₄, ht.trans (ht₁.trans (ht₂.trans (ht₃.trans ht₄)))⟩
  | skip =>
    obtain rfl := hop.opcode_eq rfl
    obtain ⟨size, m₁, _, rfl, ht₁, h₁⟩ := accepts_u16.step h
    obtain ⟨operand, m₂, pieces, hs, ht₂, h₂⟩ := hnext.step h₁
    obtain ⟨rfl, rfl⟩ := stateT_pure_eq_ok.1 h₂
    exact ⟨_, .skip hop hs, ht.trans (ht₁.trans ht₂)⟩
  | virtualFunction =>
    obtain rfl := hop.opcode_eq rfl
    obtain ⟨name, m₁, _, ⟨form, hform, rfl⟩, ht₁, h₁⟩ := accepts_compact.step h
    obtain ⟨params, m₂, pieces, ⟨hs, htakes⟩, ht₂, h₂⟩ :=
      (accepts_params hnext _).step (itemBound_bind_eq_ok.1 h₁)
    obtain ⟨rfl, rfl⟩ := stateT_pure_eq_ok.1 h₂
    exact ⟨_, .virtualCall hop hform hs htakes, ht.trans (ht₁.trans ht₂)⟩
  | globalFunction =>
    obtain rfl := hop.opcode_eq rfl
    obtain ⟨name, m₁, _, ⟨form, hform, rfl⟩, ht₁, h₁⟩ := accepts_compact.step h
    obtain ⟨params, m₂, pieces, ⟨hs, htakes⟩, ht₂, h₂⟩ :=
      (accepts_params hnext _).step (itemBound_bind_eq_ok.1 h₁)
    obtain ⟨rfl, rfl⟩ := stateT_pure_eq_ok.1 h₂
    exact ⟨_, .globalCall hop hform hs htakes, ht.trans (ht₁.trans ht₂)⟩
  | finalFunction =>
    obtain rfl := hop.opcode_eq rfl
    obtain ⟨function, m₁, _, ⟨form, hform, rfl⟩, ht₁, h₁⟩ := accepts_object.step h
    obtain ⟨params, m₂, pieces, ⟨hs, htakes⟩, ht₂, h₂⟩ :=
      (accepts_params hnext _).step (itemBound_bind_eq_ok.1 h₁)
    obtain ⟨rfl, rfl⟩ := stateT_pure_eq_ok.1 h₂
    exact ⟨_, .finalCall hop hform hs htakes, ht.trans (ht₁.trans ht₂)⟩
  | iterator =>
    obtain rfl := hop.opcode_eq rfl
    obtain ⟨operand, m₁, pieces, hs, ht₁, h₁⟩ := hnext.step h
    obtain ⟨stop, m₂, _, rfl, ht₂, h₂⟩ := accepts_u16.step h₁
    obtain ⟨rfl, rfl⟩ := stateT_pure_eq_ok.1 h₂
    exact ⟨_, .iterator hop hs, ht.trans (ht₁.trans ht₂)⟩
  | conversion =>
    obtain rfl := hop.opcode_eq rfl
    obtain ⟨operand, pieces, hs, ht₁, rfl⟩ := hconverted.last h
    exact ⟨_, .conversion hop hs, ht.trans ht₁⟩
  | cast name =>
    obtain ⟨operand, pieces, hs, ht₁, rfl⟩ := hnext.last h
    exact ⟨_, .cast hop hs, ht.trans ht₁⟩
  | remove =>
    obtain rfl := hop.opcode_eq rfl
    obtain ⟨array, m₁, pieces₁, hs₁, ht₁, h₁⟩ := hnext.step h
    obtain ⟨index, m₂, pieces₂, hs₂, ht₂, h₂⟩ := hnext.step h₁
    obtain ⟨count, m₃, pieces₃, hs₃, ht₃, h₃⟩ := hnext.step h₂
    obtain ⟨rfl, rfl⟩ := stateT_pure_eq_ok.1 h₃
    exact ⟨_, .remove hop hs₁ hs₂ hs₃, ht.trans (ht₁.trans (ht₂.trans ht₃))⟩

/-- An expression that is read is spelled by the bytes that were read. -/
theorem readExpr_accepts (ctx : Context) (levels : Nat) (table : OpcodeTable) :
    Accepts (readExpr ctx levels table) (Spells ctx levels table) := by
  induction levels generalizing table with
  | zero => exact nofun
  | succ levels ih =>
    intro p e q h
    obtain ⟨opcode, m, _, rfl, ht, h₁⟩ := accepts_u8.step h
    cases hop : lookupOp? ctx.format table opcode with
    | some op =>
      rw [hop] at h₁
      exact accepts_operands (ih table) (ih .conversion) hop ht h₁
    | none =>
      rw [hop] at h₁
      by_cases hopcode : Opcode.extendedNative ≤ opcode
      · simp only [if_pos hopcode] at h₁
        exact accepts_native (ih table) hop hopcode ht h₁
      · simp only [if_neg hopcode] at h₁
        cases h₁

/-- Statements that are read are spelled by the bytes that were read, and no statement begins where
the size is reached. -/
theorem readStatements_accepts {size : UInt32} {bound : Nat} {statements : List Expr}
    (h : readStatements ctx size bound p = .ok (statements, q)) :
    ∃ spelled, SpellsStatements ctx size p.used spelled statements ∧
      Spans p spelled.flatten q := by
  induction bound generalizing p statements with
  | zero => cases h
  | succ bound ih =>
    obtain ⟨hsize, rfl, rfl⟩ | ⟨hsize, e, m, es, he, hes, rfl⟩ := readStatements_eq_ok.1 h
    · exact ⟨[], .nil hsize, .nil _⟩
    · obtain ⟨pieces, hspelled, ht₁⟩ := readExpr_accepts ctx nestingLimit .main he
      obtain ⟨more, hmore, ht₂⟩ := ih hes
      rw [ht₁.used] at hmore
      exact ⟨pieces :: more, .cons hsize hspelled hmore, ht₁.trans ht₂⟩

/-- A script that is read is spelled by the bytes that were read. -/
theorem spelled_of_decodeSized {size used : UInt32} {input rest : List UInt8}
    {statements : List Expr} (h : decodeSized ctx size input = .ok ((statements, used), rest)) :
    ∃ spelled, SpellsStatements ctx size 0 spelled statements ∧
      input = bytesOf spelled.flatten ++ rest ∧ used = .ofNat (loadedSizeOf spelled.flatten) := by
  obtain ⟨⟨es, q⟩, hread, hpure⟩ := except_bind_eq_ok.1 h
  cases hpure
  obtain ⟨spelled, hs, ht⟩ := readStatements_accepts hread
  refine ⟨spelled, hs, ht.rest, ?_⟩
  rw [ht.used, UInt32.zero_add]

end UnrealPackage.Script
