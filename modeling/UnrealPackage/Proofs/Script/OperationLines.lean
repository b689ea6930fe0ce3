import UnrealPackage.Proofs.Script.Readings
/-!
# Operations told apart by their lines

`lines_clear` says which operations of the stock natives a line can be taken for. Each line has one
reading, and of the operations that are written as the line, the reading is the one that is `Clear`:
it has all the brackets that it needs, no dash stands in front of another one, and no operator
stands behind what begins with one. The others are written as something that they are not. A
comparison of structs is the same as the native comparison of its name there (`Operation.merged`).
-/

namespace UnrealPackage.Script

/-! ## Expressions -/

/-- The operator that a comparison of structs is written with. -/
def StructComparison.operator : StructComparison → String
  | equal => "=="
  | notEqual => "!="

/-- The expression is made of operators of the stock natives and comparisons of structs. -/
inductive Denotes (t : Tables) : Expr → Operation → Prop
  | leaf {e : Expr} {s : String} : e.render t = .ok s → IsOperand s → Denotes t e (.leaf s)
  | before {f : NativeFunction} {e : Expr} {x : Operation} :
    f ∈ stockNatives → f.shape = .prefixOp → Denotes t e x →
      Denotes t (.call (.native f) [e]) (.before f.name x)
  | after {f : NativeFunction} {e : Expr} {x : Operation} :
    f ∈ stockNatives → f.shape = .postfixOp → Denotes t e x →
      Denotes t (.call (.native f) [e]) (.after f.name x)
  | between {f : NativeFunction} {lhs rhs : Expr} {l r : Operation} :
    f ∈ stockNatives → f.shape = .binaryOp → Denotes t lhs l → Denotes t rhs r →
      Denotes t (.call (.native f) [lhs, rhs]) (.between false f.name l r)
  | compare {c : StructComparison} {struct : ObjectRef} {lhs rhs : Expr} {l r : Operation} :
    Denotes t lhs l → Denotes t rhs r →
      Denotes t (.compare c struct lhs rhs) (.between true c.operator l r)

variable {t : Tables} {e : Expr} {x y l r : Operation} {word : String → Prop} {limit : Nat}

open Operation

theorem renderAll_singleton {s : String} (h : e.render t = .ok s) :
    Expr.renderAll t [e] = .ok [s] := by
  rw [Expr.renderAll, Expr.renderAll, h]
  rfl

/-- The operators in front of an operand and behind one are no words. -/
theorem isWord_unary (f : NativeFunction) (hf : f ∈ stockNatives)
    (hshape : f.shape = .prefixOp ∨ f.shape = .postfixOp) : isWord f.name = false := by
  have hsigns : ∀ f ∈ stockNatives, f.shape = .prefixOp ∨ f.shape = .postfixOp →
      isWord f.name = false := by decide +kernel
  exact hsigns f hf hshape

/-- The operation has the line and the brackets of the expression. -/
theorem Denotes.render (h : Denotes t e x) : e.render t = .ok x.line ∧
    ∀ limit : Nat, (e.binaryPrecedence?.any fun q => limit ≤ q.toNat) = x.bracketed limit := by
  have hsome : ∀ q : Option UInt8, q.isSome = q.any fun q => 0 ≤ q.toNat := by
    rintro (_ | q)
    · rfl
    · simp
  induction h with
  | leaf hs hword =>
    refine ⟨hs, fun limit => ?_⟩
    rw [binaryPrecedence?_of_isWord hs hword.isWord]
    rfl
  | @before f e x hf hshape _ ih =>
    refine ⟨?_, fun limit => ?_⟩
    · rw [render_native (renderAll_singleton ih.1), line, ← ih.2 0, ← hsome]
      simp only [nativeText, hshape, isWord_unary f hf (.inl hshape), unaryOperand]
      simp
    · rw [Expr.binaryPrecedence?, hshape]
      rfl
  | @after f e x hf hshape _ ih =>
    refine ⟨?_, fun limit => ?_⟩
    · rw [render_native (renderAll_singleton ih.1), line, ← ih.2 0, ← hsome]
      simp only [nativeText, hshape, isWord_unary f hf (.inr hshape), unaryOperand]
      simp
    · rw [Expr.binaryPrecedence?, hshape]
      rfl
  | @between f lhs rhs l r hf hshape _ _ ihl ihr =>
    have hprecedence := stockPrecedence_name f hf hshape
    refine ⟨?_, fun limit => ?_⟩
    · rw [render_native (renderAll_pair ihl.1 ihr.1), line, hprecedence, ← ihl.2, ← ihr.2]
      simp only [nativeText, hshape]
      rfl
    · rw [Expr.binaryPrecedence?, if_pos hshape, bracketed, loose, hprecedence]
      simp [isStruct]
  | @compare c struct lhs rhs l r _ _ ihl ihr =>
    refine ⟨?_, fun limit => ?_⟩
    · have htext : (Expr.compare c struct lhs rhs).render t =
          .ok (l.line ++ (" " ++ c.operator ++ " ") ++ r.line) := by
        cases c with
        | equal => rw [Expr.render, ihl.1, ihr.1]; rfl
        | notEqual => rw [Expr.render, ihl.1, ihr.1]; rfl
      rw [htext, line, Bool.not_true, Bool.false_and, Bool.false_and, bracketedIf_false,
        bracketedIf_false]
      simp only [String.append_assoc]
    · rw [bracketed, isStruct, Bool.not_true, Bool.and_false]
      rfl

/-- The text of some expression, with no sign of an operator before or behind an operand. -/
def IsLeaf (t : Tables) (s : String) : Prop :=
  IsOperand s ∧ ∃ e : Expr, e.render t = .ok s

/-- A comparison of structs is a stock operator. -/
theorem StructComparison.stockOperator (c : StructComparison) :
    StockOperator .binaryOp c.operator := by
  cases c with
  | equal =>
    refine ⟨⟨154, "==", false, 24, true⟩, ?_, rfl, rfl⟩
    decide +kernel
  | notEqual =>
    refine ⟨⟨155, "!=", false, 26, true⟩, ?_, rfl, rfl⟩
    decide +kernel

/-- What denotes an expression is made of names for its leaves. -/
theorem Denotes.named (h : Denotes t e x) : x.Named (IsLeaf t) := by
  induction h with
  | leaf hs hword => exact ⟨hword, _, hs⟩
  | before hf hshape _ ih => exact ⟨stockOperator_of_mem hf hshape, ih⟩
  | after hf hshape _ ih => exact ⟨stockOperator_of_mem hf hshape, ih⟩
  | between hf hshape _ _ ihl ihr => exact ⟨stockOperator_of_mem hf hshape, ihl, ihr⟩
  | @compare c _ _ _ _ _ _ _ ihl ihr => exact ⟨c.stockOperator, ihl, ihr⟩

/-- What can be read is denoted by an expression. -/
theorem Legible.exists_denotes (h : Legible (IsLeaf t) x) : ∃ e, Denotes t e x := by
  induction h with
  | leaf hs =>
    obtain ⟨hword, e, he⟩ := hs
    exact ⟨e, .leaf he hword⟩
  | before hop _ _ ih =>
    obtain ⟨f, hf, hshape, rfl⟩ := hop
    obtain ⟨e, he⟩ := ih
    exact ⟨_, .before hf hshape he⟩
  | after hop _ _ ih =>
    obtain ⟨f, hf, hshape, rfl⟩ := hop
    obtain ⟨e, he⟩ := ih
    exact ⟨_, .after hf hshape he⟩
  | between hop _ _ ihl ihr =>
    obtain ⟨f, hf, hshape, rfl⟩ := hop
    obtain ⟨lhs, hlhs⟩ := ihl
    obtain ⟨rhs, hrhs⟩ := ihr
    exact ⟨_, .between hf hshape hlhs hrhs⟩

/-! ## Clear operations -/

namespace Operation

/-- The operation with native comparisons in place of those of structs. -/
def merged : Operation → Operation
  | leaf s => leaf s
  | before op x => before op x.merged
  | after op x => after op x.merged
  | between _ op l r => between false op l.merged r.merged

/-- No dash stands in front of another one as an operator of its own, and no operator stands behind
an operand that begins with one. -/
def Tidy : Operation → Prop
  | leaf _ => True
  | before op x => x.Tidy ∧ (op = "-" → x.isDashed = false)
  | after _ x => x.Tidy ∧ x.isBefore = false
  | between _ _ l r => l.Tidy ∧ r.Tidy

/-- Every operand that is too loose for its operator is in brackets. -/
def Complete : Operation → Prop
  | leaf _ => True
  | before _ x => x.Complete ∧ x.bracketed 0 = x.loose 0
  | after _ x => x.Complete ∧ x.bracketed 0 = x.loose 0
  | between struct op l r =>
    (l.Complete ∧ (!struct && l.bracketed ((stockPrecedence op).toNat + 1)) =
        l.loose ((stockPrecedence op).toNat + 1)) ∧
      r.Complete ∧ (!struct && r.bracketed (stockPrecedence op).toNat) =
        r.loose (stockPrecedence op).toNat

/-- The operation can be told from its line. -/
def Clear (x : Operation) : Prop :=
  x.Tidy ∧ x.Complete

@[simp] theorem loose_merged (x : Operation) (limit : Nat) :
    x.merged.loose limit = x.loose limit := by
  cases x <;> rfl

@[simp] theorem isDashed_merged (x : Operation) : x.merged.isDashed = x.isDashed := by
  cases x <;> rfl

@[simp] theorem isBefore_merged (x : Operation) : x.merged.isBefore = x.isBefore := by
  cases x <;> rfl

@[simp] theorem bracketed_merged (x : Operation) (limit : Nat) :
    x.merged.bracketed limit = x.loose limit := by
  cases x <;> simp [merged, bracketed, isStruct, loose]

/-- With native comparisons, a tidy operation can be read. -/
theorem legible_merged_iff (hx : x.Named word) : Legible word x.merged ↔ x.Tidy := by
  induction x with
  | leaf s => exact ⟨fun _ => trivial, fun _ => .leaf hx⟩
  | before op x ih =>
    constructor
    · rintro (_ | ⟨-, h, hdash⟩)
      exact ⟨(ih hx.2).1 h, fun hop => x.isDashed_merged ▸ hdash hop⟩
    · exact fun ⟨h, hdash⟩ => .before hx.1 ((ih hx.2).2 h) fun hop =>
        x.isDashed_merged.trans (hdash hop)
  | after op x ih =>
    constructor
    · rintro (_ | _ | ⟨-, h, hbefore⟩)
      exact ⟨(ih hx.2).1 h, x.isBefore_merged ▸ hbefore⟩
    · exact fun ⟨h, hbefore⟩ => .after hx.1 ((ih hx.2).2 h) (x.isBefore_merged.trans hbefore)
  | between struct op l r ihl ihr =>
    constructor
    · rintro (_ | _ | _ | ⟨-, hl, hr⟩)
      exact ⟨(ihl hx.2.1).1 hl, (ihr hx.2.2).1 hr⟩
    · exact fun ⟨hl, hr⟩ => .between hx.1 ((ihl hx.2.1).2 hl) ((ihr hx.2.2).2 hr)

end Operation

/-- A legible operation has no parts to merge. -/
theorem Legible.merged_eq (h : Legible word x) : x.merged = x := by
  induction h with
  | leaf => rfl
  | before _ _ _ ih => rw [merged, ih]
  | after _ _ _ ih => rw [merged, ih]
  | between _ _ _ ihl ihr => rw [merged, ihl, ihr]

/-- Brackets make a text longer. -/
theorem length_bracketedIf_le {b b' : Bool} {s s' : String} (hb : b = true → b' = true)
    (hs : s.length ≤ s'.length) : (bracketedIf b s).length ≤ (bracketedIf b' s').length ∧
      ((bracketedIf b' s').length = (bracketedIf b s).length → s'.length = s.length ∧ b = b') := by
  have hlength : ∀ s : String, (bracketedIf true s).length = s.length + 2 := by
    intro s
    rw [bracketedIf_true, String.length_append, String.length_append]
    show 1 + s.length + 1 = s.length + 2
    omega
  cases b <;> cases b'
  · exact ⟨hs, fun h => ⟨h, rfl⟩⟩
  · rw [bracketedIf_false, hlength]
    exact ⟨by omega, fun h => absurd h (by omega)⟩
  · cases hb rfl
  · rw [hlength, hlength]
    exact ⟨by omega, fun h => ⟨by omega, rfl⟩⟩

theorem Operation.loose_of_bracketed (h : x.bracketed limit = true) : x.loose limit = true :=
  (Bool.and_eq_true_iff.1 h).1

/-- With native comparisons the line has no bracket less, and more if some are missing. -/
theorem Operation.length_line_le (x : Operation) : x.line.length ≤ x.merged.line.length ∧
    (x.merged.line.length = x.line.length → x.Complete) := by
  induction x with
  | leaf s => exact ⟨Nat.le_refl _, fun _ => trivial⟩
  | before op x ih =>
    have hoperand := length_bracketedIf_le loose_of_bracketed ih.1 (b := x.bracketed 0)
    simp only [merged, line, String.length_append, bracketed_merged]
    refine ⟨by omega, fun h => ?_⟩
    obtain ⟨hline, hbrackets⟩ := hoperand.2 (by omega)
    exact ⟨ih.2 hline, hbrackets⟩
  | after op x ih =>
    have hoperand := length_bracketedIf_le loose_of_bracketed ih.1 (b := x.bracketed 0)
    simp only [merged, line, String.length_append, bracketed_merged]
    refine ⟨by omega, fun h => ?_⟩
    obtain ⟨hline, hbrackets⟩ := hoperand.2 (by omega)
    exact ⟨ih.2 hline, hbrackets⟩
  | between struct op l r ihl ihr =>
    have hloose : ∀ (x : Operation) (limit : Nat), (!struct && x.bracketed limit) = true →
        x.loose limit = true := fun x limit h => loose_of_bracketed (Bool.and_eq_true_iff.1 h).2
    have hl := length_bracketedIf_le (hloose l ((stockPrecedence op).toNat + 1)) ihl.1
    have hr := length_bracketedIf_le (hloose r (stockPrecedence op).toNat) ihr.1
    simp only [merged, line, String.length_append, bracketed_merged, Bool.not_false, Bool.true_and]
    refine ⟨by omega, fun h => ?_⟩
    obtain ⟨hlline, hlbrackets⟩ := hl.2 (by omega)
    obtain ⟨hrline, hrbrackets⟩ := hr.2 (by omega)
    exact ⟨⟨ihl.2 hlline, hlbrackets⟩, ihr.2 hrline, hrbrackets⟩

/-- The brackets that are missing are those that the operation has with native comparisons. -/
theorem Operation.complete_iff : x.Complete ↔ x.merged.line = x.line := by
  refine ⟨fun h => ?_, fun h => x.length_line_le.2 (congrArg String.length h)⟩
  induction x with
  | leaf => rfl
  | before op x ih => rw [merged, line, line, bracketed_merged, ih h.1, h.2]
  | after op x ih => rw [merged, line, line, bracketed_merged, ih h.1, h.2]
  | between struct op l r ihl ihr =>
    obtain ⟨⟨hl, hleft⟩, hr, hright⟩ := h
    rw [merged, line, line, bracketed_merged, bracketed_merged, ihl hl, ihr hr, hleft, hright]
    rfl

/-- What can be read is clear. -/
theorem Legible.clear (h : Legible (IsLeaf t) x) (hx : x.Named (IsLeaf t)) : x.Clear :=
  ⟨(legible_merged_iff hx).1 (h.merged_eq.symm ▸ h), complete_iff.2 (by rw [h.merged_eq])⟩

/-- Every line has one reading. Of the operations that are written as the line, those that are clear
are the reading, with native comparisons in place of those of structs. -/
theorem lines_clear (h : Denotes t e x) :
    ∃ line e₀ y, lines t [e] = .ok [line] ∧ Denotes t e₀ y ∧ y.Clear ∧ lines t [e₀] = .ok [line] ∧
      ∀ e' x', Denotes t e' x' → lines t [e'] = .ok [line] → (x'.Clear ↔ x'.merged = y) := by
  have hlines : ∀ {e x}, Denotes t e x → lines t [e] = .ok [x.line] :=
    fun h => renderAll_singleton h.render.1
  obtain ⟨y, hy, hline, -⟩ := h.named.exists_legible
  obtain ⟨e₀, he₀⟩ := hy.exists_denotes
  refine ⟨x.line, e₀, y, hlines h, he₀, hy.clear he₀.named, hline ▸ hlines he₀, ?_⟩
  intro e' x' h' hx'
  have hline' : x'.line = y.line := by
    rw [hlines h'] at hx'
    rw [hline]
    exact (List.cons.inj (Except.ok.inj hx')).1
  rw [Clear, ← legible_merged_iff h'.named, complete_iff]
  constructor
  · rintro ⟨hlegible, hsame⟩
    exact hlegible.line_inj (fun _ hs => hs.1) hy (hsame.trans hline')
  · rintro rfl
    exact ⟨hy, hline'.symm⟩

/-- An expression with the stock operator of an index and its place, before the operand. -/
def prefixed (index : Nat) (op : String) (e : Expr) : Expr :=
  .call (.native ⟨index, op, true, 0, true⟩) [e]

/-- `self == none` as a comparison of structs. -/
def structsEqual (lhs : Expr) : Expr :=
  .compare .equal ⟨0⟩ lhs (.atom .noObject)

theorem denotes_atom {a : Atom} (h : IsOperand a.render) :
    Denotes t (.atom a) (.leaf a.render) :=
  .leaf (by rw [Expr.render]; rfl) h

theorem denotes_not (h : Denotes t e x) : Denotes t (prefixed 129 "!" e) (.before "!" x) :=
  .before (by decide +kernel : (⟨129, "!", true, 0, true⟩ : NativeFunction) ∈ stockNatives) rfl h

/-- The line of a negated comparison of structs has a reading. -/
theorem lines_clear_negation :
    Denotes ⟨"", [], [], []⟩ (prefixed 129 "!" (structsEqual (.atom .selfObject)))
        (.before "!" (.between true "==" (.leaf "self") (.leaf "none"))) ∧
      ∃ line e₀ y, lines ⟨"", [], [], []⟩ [prefixed 129 "!" (structsEqual (.atom .selfObject))] =
          .ok [line] ∧
        Denotes ⟨"", [], [], []⟩ e₀ y ∧ y.Clear ∧ lines ⟨"", [], [], []⟩ [e₀] = .ok [line] ∧
        ∀ e' x', Denotes ⟨"", [], [], []⟩ e' x' → lines ⟨"", [], [], []⟩ [e'] = .ok [line] →
          (x'.Clear ↔ x'.merged = y) := by
  have h : Denotes ⟨"", [], [], []⟩ (prefixed 129 "!" (structsEqual (.atom .selfObject)))
      (.before "!" (.between true "==" (.leaf "self") (.leaf "none"))) :=
    denotes_not (.compare (denotes_atom (by decide)) (denotes_atom (by decide)))
  exact ⟨h, lines_clear h⟩

/-- The negation of a comparison of structs and the comparison of a negation are written alike. -/
theorem lines_negation :
    Denotes ⟨"", [], [], []⟩ (prefixed 129 "!" (structsEqual (.atom .selfObject)))
        (.before "!" (.between true "==" (.leaf "self") (.leaf "none"))) ∧
      Denotes ⟨"", [], [], []⟩ (structsEqual (prefixed 129 "!" (.atom .selfObject)))
        (.between true "==" (.before "!" (.leaf "self")) (.leaf "none")) ∧
      lines ⟨"", [], [], []⟩ [prefixed 129 "!" (structsEqual (.atom .selfObject))] =
        .ok ["!self == none"] ∧
      lines ⟨"", [], [], []⟩ [structsEqual (prefixed 129 "!" (.atom .selfObject))] =
        .ok ["!self == none"] :=
  ⟨denotes_not (.compare (denotes_atom (by decide)) (denotes_atom (by decide))),
    .compare (denotes_not (denotes_atom (by decide))) (denotes_atom (by decide)), rfl, rfl⟩

/-- Two dashes are written like one operator of two. -/
example : lines ⟨"", [], [], []⟩ [prefixed 143 "-" (prefixed 143 "-" (.atom .selfObject))] =
    lines ⟨"", [], [], []⟩ [prefixed 138 "--" (.atom .selfObject)] := rfl

end UnrealPackage.Script
