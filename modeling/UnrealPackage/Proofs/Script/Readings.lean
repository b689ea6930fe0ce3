import UnrealPackage.Proofs.Script.Operation
/-!
# One reading for each line

Two operations that can be read are the same if their lines are (`Legible.line_inj`). A line is cut
at the spaces outside of its brackets into a row of operators between units (`Operation.row`), which
is the only such row (`UnitRow.text_inj`); the root is the last of the loosest operators of the row
(`root_unique`). A unit begins with an operator, ends with one, or is a word.
-/

namespace UnrealPackage.Script

/-! ## Units -/

/-- A text in which brackets are balanced and spaces are in brackets. -/
structure Solid (s : List Char) : Prop where
  balanced : roundBrackets.Balanced s
  whole : ∀ front back, s = front ++ ' ' :: back → ¬roundBrackets.Balanced front

variable {s s' rest rest' : List Char}

/-- A text without breaks is solid. -/
theorem Solid.of_plain (h : ∀ c ∈ s, isBreak c = false) : Solid s where
  balanced := .of_plain fun c hc => by
    have hbreak := h c hc
    simp only [isBreak, Bool.or_eq_false_iff] at hbreak
    exact ⟨hbreak.2, hbreak.1.2⟩
  whole := by
    rintro front back rfl
    cases h ' ' (by simp)

/-- Solid texts in a row are solid. -/
theorem Solid.append (h : Solid s) (h' : Solid s') : Solid (s ++ s') where
  balanced := h.balanced.append h'.balanced
  whole front back heq hfront := by
    rcases List.append_eq_append_iff.1 heq with ⟨more, rfl, hs'⟩ | ⟨more, rfl, hback⟩
    · exact h'.whole more back hs' (h.balanced.of_append hfront)
    · cases more with
      | nil =>
        rw [List.nil_append] at hback
        exact h'.whole [] back hback.symm .nil
      | cons c more =>
        obtain ⟨rfl, -⟩ := List.cons.inj hback
        exact h.whole front more rfl hfront

/-- A balanced text in brackets is solid. -/
theorem Solid.bracketed (h : roundBrackets.Balanced s) : Solid ('(' :: (s ++ [')'])) where
  balanced := h.bracketed rfl rfl rfl
  whole front back heq := by
    cases front with
    | nil => cases heq
    | cons c front =>
      obtain ⟨rfl, htail⟩ := List.cons.inj heq
      rcases List.eq_nil_or_concat back with rfl | ⟨back, last, rfl⟩
      · have := (List.append_inj' htail rfl).2
        cases this
      · have hinit : s ++ [')'] = (front ++ ' ' :: back) ++ [last] := by simpa using htail
        obtain rfl := (List.append_inj' hinit rfl).1
        have hopen : ¬roundBrackets.Balanced ([] ++ '(' :: front) := h.not_open rfl
        exact hopen

/-- Where a unit ends is seen from the space behind it. -/
theorem Solid.append_inj (h : Solid s) (h' : Solid s') (heq : s ++ rest = s' ++ rest')
    (hrest : ∀ c ∈ rest.head?, c = ' ') (hrest' : ∀ c ∈ rest'.head?, c = ' ') :
    s = s' ∧ rest = rest' := by
  rcases List.append_eq_append_iff.1 heq with ⟨more, rfl, hmore⟩ | ⟨more, rfl, hmore⟩
  · cases more with
    | nil => exact ⟨(List.append_nil s).symm, hmore⟩
    | cons c more =>
      obtain rfl := hrest c (by rw [hmore]; rfl)
      exact absurd h.balanced (h'.whole s more rfl)
  · cases more with
    | nil => exact ⟨List.append_nil s', hmore.symm⟩
    | cons c more =>
      obtain rfl := hrest' c (by rw [hmore]; rfl)
      exact absurd h'.balanced (h.whole s' more rfl)

/-! ## Rows -/

/-- A unit, and operators with units behind it. -/
abbrev UnitRow := List Char × List (String × List Char)

namespace UnitRow

/-- The row with spaces around the operators. -/
def text (row : UnitRow) : List Char :=
  row.1 ++ row.2.flatMap fun p => ' ' :: (p.1.toList ++ ' ' :: p.2)

/-- Every unit of the row is solid, and every operator a word. -/
def IsSolid (row : UnitRow) : Prop :=
  Solid row.1 ∧ ∀ p ∈ row.2, IsWord p.1 ∧ Solid p.2

theorem text_cons (u : List Char) (op : String) (v : List Char) (us : List (String × List Char)) :
    text (u, (op, v) :: us) = u ++ ' ' :: (op.toList ++ ' ' :: text (v, us)) := by
  simp [text]

/-- What stands behind the first unit begins with a space. -/
theorem head?_flatMap (us : List (String × List Char)) :
    ∀ c ∈ (us.flatMap fun p => ' ' :: (p.1.toList ++ ' ' :: p.2)).head?, c = ' ' := by
  intro c hc
  cases us with
  | nil => cases hc
  | cons p us => exact (Option.some.inj hc).symm

/-- A text is that of one row. -/
theorem text_inj {row row' : UnitRow} (h : row.IsSolid) (h' : row'.IsSolid)
    (heq : row.text = row'.text) : row = row' := by
  obtain ⟨u, us⟩ := row
  obtain ⟨u', us'⟩ := row'
  obtain ⟨rfl, hback⟩ := h.1.append_inj h'.1 heq (head?_flatMap us) (head?_flatMap us')
  induction us generalizing u us' with
  | nil =>
    cases us' with
    | nil => rfl
    | cons p us' => cases hback
  | cons p us ih =>
    obtain ⟨op, v⟩ := p
    cases us' with
    | nil => cases hback
    | cons p' us' =>
      obtain ⟨op', v'⟩ := p'
      obtain ⟨⟨hop, hv⟩, hus⟩ := List.forall_mem_cons.1 h.2
      obtain ⟨⟨hop', hv'⟩, hus'⟩ := List.forall_mem_cons.1 h'.2
      rw [text_cons, text_cons] at heq
      obtain ⟨hops, hunits⟩ := (Solid.of_plain hop.2).append_inj (.of_plain hop'.2)
        (List.cons.inj (List.append_cancel_left heq)).2
        (fun _ hc => (Option.some.inj hc).symm) (fun _ hc => (Option.some.inj hc).symm)
      have htext : text (v, us) = text (v', us') := (List.cons.inj hunits).2
      obtain ⟨rfl, htail⟩ := hv.append_inj hv' htext (head?_flatMap us) (head?_flatMap us')
      have hrow := ih v ⟨hv, hus⟩ us' ⟨hv, hus'⟩ htext htail
      obtain rfl : op = op' := String.toList_inj.1 hops
      obtain rfl : us = us' := (Prod.mk.inj hrow).2
      rfl

/-- Brackets are balanced in a row. -/
theorem IsSolid.balanced {row : UnitRow} (h : row.IsSolid) : roundBrackets.Balanced row.text := by
  have hspace : roundBrackets.Balanced [' '] := rfl
  have hback : ∀ us : List (String × List Char), (∀ p ∈ us, IsWord p.1 ∧ Solid p.2) →
      roundBrackets.Balanced (us.flatMap fun p => ' ' :: (p.1.toList ++ ' ' :: p.2)) := by
    intro us hus
    induction us with
    | nil => exact .nil
    | cons p us ih =>
      obtain ⟨⟨hop, hunit⟩, hus⟩ := List.forall_mem_cons.1 hus
      exact (hspace.append ((Solid.of_plain hop.2).balanced.append
        (hspace.append hunit.balanced))).append (ih hus)
  exact h.1.balanced.append (hback _ h.2)

end UnitRow

/-- The last of the loosest items of a row is one of them only. -/
theorem root_unique {α : Type} (f : α → Nat) {us us' vs vs' : List α} {a a' : α}
    (heq : us ++ a :: vs = us' ++ a' :: vs') (hus : ∀ x ∈ us, f x ≤ f a) (hvs : ∀ x ∈ vs, f x < f a)
    (hus' : ∀ x ∈ us', f x ≤ f a') (hvs' : ∀ x ∈ vs', f x < f a') :
    us = us' ∧ a = a' ∧ vs = vs' := by
  rcases List.append_eq_append_iff.1 heq with ⟨more, rfl, hmore⟩ | ⟨more, rfl, hmore⟩
  · cases more with
    | nil =>
      obtain ⟨rfl, rfl⟩ := List.cons.inj hmore
      exact ⟨(List.append_nil us).symm, rfl, rfl⟩
    | cons c more =>
      obtain ⟨rfl, rfl⟩ := List.cons.inj hmore
      have hle := hus' a (by simp)
      have hlt := hvs a' (by simp)
      omega
  · cases more with
    | nil =>
      obtain ⟨rfl, rfl⟩ := List.cons.inj hmore
      exact ⟨List.append_nil us', rfl, rfl⟩
    | cons c more =>
      obtain ⟨rfl, rfl⟩ := List.cons.inj hmore
      have hle := hus a' (by simp)
      have hlt := hvs' a (by simp)
      omega

/-! ## The row of an operation -/

/-- The row of an operand, which is one unit in brackets. -/
def operandRow (b : Bool) (line : String) (row : UnitRow) : UnitRow :=
  if b then ('(' :: (line.toList ++ [')']), []) else row

/-- The operators outside of brackets, and the units between them. -/
def Operation.row : Operation → UnitRow
  | leaf s => (s.toList, [])
  | before op x => ((before op x).line.toList, [])
  | after op x => ((after op x).line.toList, [])
  | between _ op l r =>
    let left := operandRow (l.loose ((stockPrecedence op).toNat + 1)) l.line l.row
    let right := operandRow (r.loose (stockPrecedence op).toNat) r.line r.row
    (left.1, left.2 ++ (op, right.1) :: right.2)

open Operation

variable {word : String → Prop} {x x' y l r : Operation} {op : String} {b : Bool} {limit : Nat}

theorem text_operandRow (h : x.row.text = x.line.toList) (b : Bool) :
    (operandRow b x.line x.row).text = (bracketedIf b x.line).toList := by
  cases b with
  | false => exact h
  | true => simp [operandRow, UnitRow.text]

/-- The text of the row is the line. -/
theorem Legible.text_row (h : Legible word x) : x.row.text = x.line.toList := by
  induction h with
  | leaf | before | after => exact List.append_nil _
  | @between op l r hop hl hr ihl ihr =>
    rw [hl.line_between hr, row]
    have hleft := text_operandRow ihl (l.loose ((stockPrecedence op).toNat + 1))
    have hright := text_operandRow ihr (r.loose (stockPrecedence op).toNat)
    simp only [UnitRow.text] at hleft hright ⊢
    simp only [List.flatMap_append, List.flatMap_cons, String.toList_append, ← hleft, ← hright]
    simp

theorem row_of_unit (h : x.loose 0 = false) : x.row = (x.line.toList, []) := by
  cases x with
  | between => cases h
  | _ => rfl

theorem row_ne_nil (h : x.loose 0 = true) : x.row.2 ≠ [] := by
  cases x with
  | between struct op l r => exact List.append_ne_nil_of_right_ne_nil _ (List.cons_ne_nil _ _)
  | _ => cases h

/-- An operand of a unary operator is a unit. -/
theorem solid_operand (h : Legible word x) (hrow : x.row.IsSolid) :
    Solid (bracketedIf (x.loose 0) x.line).toList := by
  cases hx : x.loose 0 with
  | false =>
    rw [row_of_unit hx] at hrow
    exact hrow.1
  | true =>
    have hbalanced := hrow.balanced
    rw [h.text_row] at hbalanced
    simpa using Solid.bracketed hbalanced

/-- An operand is a solid row, with its brackets or without. -/
theorem isSolid_operandRow (h : Legible word x) (hrow : x.row.IsSolid) (b : Bool) :
    (operandRow b x.line x.row).IsSolid := by
  cases b with
  | false => exact hrow
  | true =>
    have hbalanced := hrow.balanced
    rw [h.text_row] at hbalanced
    exact ⟨.bracketed hbalanced, nofun⟩

/-- Between the operators of a row stand units. -/
theorem Legible.isSolid_row (hword : ∀ s, word s → IsOperand s) (h : Legible word x) :
    x.row.IsSolid := by
  induction h with
  | leaf hs => exact ⟨.of_plain fun c hc => ((hword _ hs).2 c hc).1, nofun⟩
  | @before op x hop hx _ ih =>
    have hwords : ∀ op ∈ ["!", "++", "--", "~", "-"], IsWord op := by decide
    refine ⟨?_, nofun⟩
    rw [row, hx.line_before, String.toList_append]
    exact (Solid.of_plain (hwords op hop.mem_prefixes).2).append (solid_operand hx ih)
  | @after op x hop hx _ ih =>
    have hwords : ∀ op ∈ ["++", "--"], IsWord op := by decide
    refine ⟨?_, nofun⟩
    rw [row, hx.line_after, String.toList_append]
    exact (solid_operand hx ih).append (.of_plain (hwords op hop.mem_postfixes).2)
  | @between op l r hop hl hr ihl ihr =>
    have hleft := isSolid_operandRow hl ihl (l.loose ((stockPrecedence op).toNat + 1))
    have hright := isSolid_operandRow hr ihr (r.loose (stockPrecedence op).toNat)
    refine ⟨hleft.1, fun p hp => ?_⟩
    rcases List.mem_append.1 hp with hp | hp
    · exact hleft.2 p hp
    · rcases List.mem_cons.1 hp with rfl | hp
      · exact ⟨hop.isWord, hright.1⟩
      · exact hright.2 p hp

/-- The operators of a row bind more tightly than a limit that the operation is not beyond. -/
theorem lt_of_mem_operandRow
    (h : x.loose limit = false → ∀ p ∈ x.row.2, (stockPrecedence p.1).toNat < limit) :
    ∀ p ∈ (operandRow (x.loose limit) x.line x.row).2, (stockPrecedence p.1).toNat < limit := by
  cases hx : x.loose limit with
  | true => exact nofun
  | false => exact h hx

/-- An operation that is not loose has no looser operators in its row. -/
theorem lt_of_mem_row (h : x.loose limit = false) :
    ∀ p ∈ x.row.2, (stockPrecedence p.1).toNat < limit := by
  induction x generalizing limit with
  | between struct op l r ihl ihr =>
    have hlimit : (stockPrecedence op).toNat < limit := Nat.not_le.1 (of_decide_eq_false h)
    intro p hp
    rcases List.mem_append.1 hp with hp | hp
    · have hlt := lt_of_mem_operandRow ihl p hp
      omega
    · rcases List.mem_cons.1 hp with rfl | hp
      · exact hlimit
      · exact (lt_of_mem_operandRow ihr p hp).trans hlimit
  | _ => exact nofun

/-! ## The ends of a unit -/

/-- Whether it ends with an operator behind its operand. -/
def Operation.isAfter : Operation → Bool
  | after _ _ => true
  | _ => false

/-- The place of the operator at the root. -/
def Operation.shape : Operation → CallShape
  | leaf _ => .call
  | before _ _ => .prefixOp
  | after _ _ => .postfixOp
  | between _ _ _ _ => .binaryOp

theorem shape_of_loose (h : x.loose limit = true) : x.shape = .binaryOp := by
  cases x with
  | between => rfl
  | _ => cases h

theorem shape_of_isBefore (h : x.isBefore = true) : x.shape = .prefixOp := by
  cases x with
  | before => rfl
  | _ => cases h

/-- A single unit is an operation behind its operand, or a call. -/
theorem shape_of_unit (h : x.loose 0 = false) (hbefore : x.isBefore = false) :
    x.shape = if x.isAfter then .postfixOp else .call := by
  cases x with
  | leaf | after => rfl
  | before => cases hbefore
  | between => cases h

/-- A unit begins with a sign if it begins with an operator. -/
theorem Legible.exists_head (hword : ∀ s, word s → IsOperand s) (h : Legible word x)
    (hunit : x.loose 0 = false) : ∃ c rest, x.line.toList = c :: rest ∧ isSign c = x.isBefore := by
  induction h with
  | @leaf s hs =>
    obtain ⟨hne, hchars⟩ := hword s hs
    obtain ⟨c, rest, hcons⟩ := List.exists_cons_of_ne_nil hne
    exact ⟨c, rest, hcons, (hchars c (hcons ▸ List.mem_cons_self)).2⟩
  | @before op x hop hx _ ih =>
    have hsigns : ∀ op ∈ ["!", "++", "--", "~", "-"], op.toList.head?.any isSign = true := by decide
    obtain ⟨c, hc, hsign⟩ := (Option.any_eq_true _ _).1 (hsigns op hop.mem_prefixes)
    obtain ⟨rest, hrest⟩ := List.head?_eq_some_iff.1 hc
    refine ⟨c, rest ++ (bracketedIf (x.bracketed 0) x.line).toList, ?_, hsign⟩
    rw [line, String.toList_append, hrest]
    rfl
  | @after op x hop hx hbefore ih =>
    cases hloose : x.loose 0 with
    | true =>
      refine ⟨'(', x.line.toList ++ ')' :: op.toList, ?_, rfl⟩
      simp [hx.line_after, hloose]
    | false =>
      obtain ⟨c, rest, hline, hsign⟩ := ih hloose
      refine ⟨c, rest ++ op.toList, ?_, hsign.trans hbefore⟩
      rw [hx.line_after, hloose, bracketedIf_false, String.toList_append, hline]
      rfl
  | between => cases hunit

/-- A unit that does not begin with an operator ends with a sign if it ends with one. -/
theorem Legible.exists_last (hword : ∀ s, word s → IsOperand s) (h : Legible word x)
    (hunit : x.loose 0 = false) (hbefore : x.isBefore = false) :
    ∃ front c, x.line.toList = front ++ [c] ∧ isSign c = x.isAfter ∧ c ≠ ')' := by
  cases h with
  | @leaf s hs =>
    obtain ⟨hne, hchars⟩ := hword s hs
    obtain ⟨front, c, hconcat⟩ := (List.eq_nil_or_concat s.toList).resolve_left hne
    rw [List.concat_eq_append] at hconcat
    have hc := hchars c (by rw [hconcat]; simp)
    refine ⟨front, c, hconcat, hc.2, ?_⟩
    rintro rfl
    cases hc.1
  | @after op x hop hx _ =>
    obtain ⟨front, c, hconcat, hsign⟩ : ∃ front c, op.toList = front ++ [c] ∧ isSign c = true := by
      rcases hop.postfix_cases with rfl | rfl
      · exact ⟨['+'], '+', rfl, rfl⟩
      · exact ⟨['-'], '-', rfl, rfl⟩
    refine ⟨(bracketedIf (x.bracketed 0) x.line).toList ++ front, c, ?_, hsign, ?_⟩
    · rw [line, String.toList_append, hconcat, ← List.append_assoc]
    · rintro rfl
      cases hsign
  | before => cases hbefore
  | between => cases hunit

/-! ## Lines -/

variable (hword : ∀ s, word s → IsOperand s)
include hword

theorem Legible.row_inj (h : Legible word x) (h' : Legible word x') (hline : x.line = x'.line) :
    x.row = x'.row :=
  UnitRow.text_inj (h.isSolid_row hword) (h'.isSolid_row hword)
    (by rw [h.text_row, h'.text_row, hline])

/-- No line is a text in brackets. -/
theorem Legible.line_ne_bracketed (h : Legible word x) (hs : roundBrackets.Balanced s) :
    x.line.toList ≠ '(' :: (s ++ [')']) := by
  intro heq
  cases hunit : x.loose 0 with
  | true =>
    have hunits : UnitRow.IsSolid ('(' :: (s ++ [')']), []) := ⟨.bracketed hs, nofun⟩
    have hrow := UnitRow.text_inj (h.isSolid_row hword) hunits
      (by rw [h.text_row, heq, UnitRow.text, List.flatMap_nil, List.append_nil])
    exact row_ne_nil hunit (congrArg Prod.snd hrow)
  | false =>
    obtain ⟨c, rest, hline, hsign⟩ := h.exists_head hword hunit
    obtain ⟨rfl, -⟩ := List.cons.inj (hline.symm.trans heq)
    obtain ⟨front, c, hline', -, hne⟩ := h.exists_last hword hunit hsign.symm
    rw [heq, ← List.cons_append] at hline'
    exact hne (List.cons.inj (List.append_inj' hline' rfl).2).1.symm

/-- An operand's line is seen from its text. -/
theorem Legible.operand_inj (h : Legible word x) (h' : Legible word x') {b b' : Bool}
    (heq : bracketedIf b x.line = bracketedIf b' x'.line) : x.line = x'.line := by
  have hbalanced : ∀ {x : Operation}, Legible word x → roundBrackets.Balanced x.line.toList :=
    fun h => h.text_row ▸ (h.isSolid_row hword).balanced
  have hbrackets : ∀ s : String, ("(" ++ s ++ ")").toList = '(' :: (s.toList ++ [')']) := by simp
  cases b <;> cases b'
  · exact heq
  · have hne := h.line_ne_bracketed hword (hbalanced h')
    exact absurd ((congrArg String.toList heq).trans (hbrackets _)) hne
  · have hne := h'.line_ne_bracketed hword (hbalanced h)
    exact absurd ((congrArg String.toList heq.symm).trans (hbrackets _)) hne
  · have hchars := congrArg String.toList heq
    rw [bracketedIf_true, bracketedIf_true, hbrackets, hbrackets] at hchars
    exact String.toList_inj.1 (List.append_cancel_right (List.cons.inj hchars).2)

/-- Whether the root stands between two operands, before one or behind one is seen from the line. -/
theorem Legible.shape_inj (h : Legible word x) (h' : Legible word x') (hline : x.line = x'.line) :
    x.shape = x'.shape := by
  have hrow := h.row_inj hword h' hline
  cases hunit : x.loose 0 with
  | true =>
    cases hunit' : x'.loose 0 with
    | true => rw [shape_of_loose hunit, shape_of_loose hunit']
    | false =>
      rw [row_of_unit hunit'] at hrow
      exact absurd (congrArg Prod.snd hrow) (row_ne_nil hunit)
  | false =>
    cases hunit' : x'.loose 0 with
    | true =>
      rw [row_of_unit hunit] at hrow
      exact absurd (congrArg Prod.snd hrow).symm (row_ne_nil hunit')
    | false =>
      obtain ⟨c, rest, hhead, hsign⟩ := h.exists_head hword hunit
      obtain ⟨c', rest', hhead', hsign'⟩ := h'.exists_head hword hunit'
      rw [hline, hhead'] at hhead
      obtain ⟨rfl, -⟩ := List.cons.inj hhead
      cases hbefore : x.isBefore with
      | true => rw [shape_of_isBefore hbefore, shape_of_isBefore (hsign' ▸ hsign ▸ hbefore)]
      | false =>
        have hbefore' : x'.isBefore = false := by rw [← hsign', hsign, hbefore]
        obtain ⟨front, d, hlast, hsign, -⟩ := h.exists_last hword hunit hbefore
        obtain ⟨front', d', hlast', hsign', -⟩ := h'.exists_last hword hunit' hbefore'
        rw [hline, hlast'] at hlast
        obtain ⟨rfl⟩ := (List.append_inj' hlast rfl).2
        rw [shape_of_unit hunit hbefore, shape_of_unit hunit' hbefore', ← hsign, ← hsign']

omit hword

/-- Two dashes in a row are not taken apart. -/
theorem prefix_inj {op op' : String} {u u' : List Char} (hop : StockOperator .prefixOp op)
    (hop' : StockOperator .prefixOp op') (heq : op.toList ++ u = op'.toList ++ u')
    (hu : op = "-" → u.head? ≠ some '-') (hu' : op' = "-" → u'.head? ≠ some '-') :
    op = op' ∧ u = u' := by
  rcases hop.prefix_cases with rfl | rfl | rfl | rfl | rfl <;>
    rcases hop'.prefix_cases with rfl | rfl | rfl | rfl | rfl <;> simp_all
  exact hu' (heq ▸ rfl)

include hword in
/-- An operand that does not begin with a dash as an operator does not begin with one at all. -/
theorem Legible.head?_operand (h : Legible word x) (hx : x.isDashed = false) :
    (bracketedIf (x.loose 0) x.line).toList.head? ≠ some '-' := by
  cases hunit : x.loose 0 with
  | true => simp
  | false =>
    obtain ⟨c, rest, hline, hsign⟩ := h.exists_head hword hunit
    rw [bracketedIf_false, hline, List.head?_cons, ne_eq, Option.some_inj]
    rintro rfl
    cases h with
    | @before op x hop hx' _ =>
      rcases hop.prefix_cases with rfl | rfl | rfl | rfl | rfl <;> simp_all [line, isDashed]
    | _ => cases hsign

/-- All operators behind an operand are as long as each other. -/
theorem postfix_inj {op op' : String} {u u' : List Char} (hop : StockOperator .postfixOp op)
    (hop' : StockOperator .postfixOp op') (heq : u ++ op.toList = u' ++ op'.toList) :
    u = u' ∧ op = op' := by
  have hlength : ∀ {op : String}, op ∈ ["++", "--"] → op.toList.length = 2 := by decide
  obtain ⟨hu, hops⟩ := List.append_inj' heq
    ((hlength hop.mem_postfixes).trans (hlength hop'.mem_postfixes).symm)
  exact ⟨hu, String.toList_inj.1 hops⟩

/-- The root and the rows of its operands are seen from the row. -/
theorem UnitRow.root_inj {left right left' right' : UnitRow} {op op' : String} (f : String → Nat)
    (hfirst : left.1 = left'.1)
    (hback : left.2 ++ (op, right.1) :: right.2 = left'.2 ++ (op', right'.1) :: right'.2)
    (hl : ∀ p ∈ left.2, f p.1 < f op + 1) (hr : ∀ p ∈ right.2, f p.1 < f op)
    (hl' : ∀ p ∈ left'.2, f p.1 < f op' + 1) (hr' : ∀ p ∈ right'.2, f p.1 < f op') :
    op = op' ∧ left.text = left'.text ∧ right.text = right'.text := by
  obtain ⟨hleft, hroot, hright⟩ := root_unique (fun p => f p.1) hback
    (fun p hp => Nat.le_of_lt_succ (hl p hp)) hr (fun p hp => Nat.le_of_lt_succ (hl' p hp)) hr'
  obtain ⟨rfl, hlast⟩ := Prod.mk.inj hroot
  refine ⟨rfl, ?_, ?_⟩
  · rw [UnitRow.text, UnitRow.text, hfirst, hleft]
  · rw [UnitRow.text, UnitRow.text, hlast, hright]

include hword in
/-- Equal lines of operations between operands have the same operator and equal lines on both sides.
-/
theorem Legible.between_inj {op op' : String} {l l' r r' : Operation}
    (hop : StockOperator .binaryOp op) (hop' : StockOperator .binaryOp op')
    (hl : Legible word l) (hl' : Legible word l')
    (hr : Legible word r) (hr' : Legible word r')
    (hline : (Operation.between false op l r).line = (Operation.between false op' l' r').line) :
    op = op' ∧ l.line = l'.line ∧ r.line = r'.line := by
  have hrow := (Legible.between hop hl hr).row_inj hword (.between hop' hl' hr') hline
  have htight : ∀ (x : Operation) (limit : Nat),
      ∀ p ∈ (operandRow (x.loose limit) x.line x.row).2, (stockPrecedence p.1).toNat < limit :=
    fun x limit => lt_of_mem_operandRow fun h => lt_of_mem_row h
  simp only [row, Prod.mk.injEq] at hrow
  obtain ⟨rfl, hleft, hright⟩ := UnitRow.root_inj (fun op => (stockPrecedence op).toNat)
    hrow.1 hrow.2 (htight l _) (htight r _) (htight l' _) (htight r' _)
  rw [text_operandRow hl.text_row, text_operandRow hl'.text_row] at hleft
  rw [text_operandRow hr.text_row, text_operandRow hr'.text_row] at hright
  exact ⟨rfl, hl.operand_inj hword hl' (String.toList_inj.1 hleft),
    hr.operand_inj hword hr' (String.toList_inj.1 hright)⟩

include hword in
/-- An operation that can be read is told apart from every other one by its line. -/
theorem Legible.line_inj (h : Legible word x) (h' : Legible word x') (hline : x.line = x'.line) :
    x = x' := by
  induction h generalizing x' with
  | @leaf s hs =>
    have hshape := (Legible.leaf hs).shape_inj hword h' hline
    cases h' with
    | leaf => exact congrArg Operation.leaf hline
    | _ => cases hshape
  | @before op x hop hx hdash ih =>
    have hshape := (Legible.before hop hx hdash).shape_inj hword h' hline
    cases h' with
    | @before op' x' hop' hx' hdash' =>
      have hchars := congrArg String.toList hline
      rw [hx.line_before, hx'.line_before, String.toList_append, String.toList_append] at hchars
      obtain ⟨rfl, hoperand⟩ := prefix_inj hop hop' hchars
        (fun h => hx.head?_operand hword (hdash h)) (fun h => hx'.head?_operand hword (hdash' h))
      rw [ih hx' (hx.operand_inj hword hx' (String.toList_inj.1 hoperand))]
    | _ => cases hshape
  | @after op x hop hx hbefore ih =>
    have hshape := (Legible.after hop hx hbefore).shape_inj hword h' hline
    cases h' with
    | @after op' x' hop' hx' hbefore' =>
      have hchars := congrArg String.toList hline
      rw [hx.line_after, hx'.line_after, String.toList_append, String.toList_append] at hchars
      obtain ⟨hoperand, rfl⟩ := postfix_inj hop hop' hchars
      rw [ih hx' (hx.operand_inj hword hx' (String.toList_inj.1 hoperand))]
    | _ => cases hshape
  | @between op l r hop hl hr ihl ihr =>
    have hshape := (Legible.between hop hl hr).shape_inj hword h' hline
    cases h' with
    | @between op' l' r' hop' hl' hr' =>
      obtain ⟨rfl, hleft, hright⟩ := Legible.between_inj hword hop hop' hl hl' hr hr' hline
      rw [ihl hl' hleft, ihr hr' hright]
    | _ => cases hshape

end UnrealPackage.Script
