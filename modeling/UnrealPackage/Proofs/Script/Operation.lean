import UnrealPackage.Proofs.Script.Precedence
import UnrealPackage.Script.Native.Stock
/-!
# Operations of the stock natives

An operation is made of the operators of the stock natives and of comparisons of structs. Its line
(`Operation.line`) has brackets around operands that are operations between two others, but none for
the sake of a comparison of structs.

A line can be read as an operation that has all the brackets it needs (`Legible`), whichever one it
was written from (`Operation.Named.exists_legible`): struct comparisons are taken for the native
ones of their name, an operator in front of one belongs to its first operand, and so on. The reading
is put together with the operation: operators are put in front of what was read (`exists_prepend`)
and behind it (`exists_append`), and two readings are joined by an operator (`exists_join`).
-/

namespace UnrealPackage.Script

/-! ## Operators -/

/-- The binding of a stock operator between two operands. -/
def stockPrecedence (op : String) : UInt8 :=
  ((stockNatives.find? fun f => f.shape = .binaryOp ∧ f.name = op).map (·.precedence)).getD 0

/-- Some stock native of the shape bears the name. -/
def StockOperator (shape : CallShape) (op : String) : Prop :=
  ∃ f ∈ stockNatives, f.shape = shape ∧ f.name = op

variable {op : String}

theorem stockPrecedence_name :
    ∀ f ∈ stockNatives, f.shape = .binaryOp → stockPrecedence f.name = f.precedence := by
  decide +kernel

theorem StockOperator.isWord (h : StockOperator .binaryOp op) : IsWord op := by
  have hwords : ∀ f ∈ stockNatives, f.shape = .binaryOp → IsWord f.name := by decide +kernel
  obtain ⟨f, hf, hshape, rfl⟩ := h
  exact hwords f hf hshape

theorem stockOperator_of_mem {f : NativeFunction} (hf : f ∈ stockNatives) {shape : CallShape}
    (hshape : f.shape = shape) : StockOperator shape f.name :=
  ⟨f, hf, hshape, rfl⟩

/-- The stock operators in front of an operand are these. -/
theorem StockOperator.mem_prefixes (h : StockOperator .prefixOp op) :
    op ∈ ["!", "++", "--", "~", "-"] := by
  have hnames : ∀ f ∈ stockNatives, f.shape = .prefixOp →
      f.name ∈ ["!", "++", "--", "~", "-"] := by
    decide +kernel
  obtain ⟨f, hf, hshape, rfl⟩ := h
  exact hnames f hf hshape

theorem StockOperator.prefix_cases (h : StockOperator .prefixOp op) :
    op = "!" ∨ op = "++" ∨ op = "--" ∨ op = "~" ∨ op = "-" := by
  simpa using h.mem_prefixes

theorem StockOperator.mem_postfixes (h : StockOperator .postfixOp op) : op ∈ ["++", "--"] := by
  have hnames : ∀ f ∈ stockNatives, f.shape = .postfixOp → f.name ∈ ["++", "--"] := by
    decide +kernel
  obtain ⟨f, hf, hshape, rfl⟩ := h
  exact hnames f hf hshape

theorem StockOperator.postfix_cases (h : StockOperator .postfixOp op) : op = "++" ∨ op = "--" := by
  simpa using h.mem_postfixes

/-- Two dashes in front of an operand are one operator. -/
theorem stockOperator_dashes : StockOperator .prefixOp "--" := by
  refine ⟨⟨138, "--", true, 0, true⟩, ?_, rfl, rfl⟩
  decide +kernel

/-! ## Operations -/

/-- The characters of the operators that stand before or behind an operand. -/
def isSign (c : Char) : Bool :=
  c == '!' || c == '+' || c == '-' || c == '~'

/-- The text is a word without the characters of such operators. -/
def IsOperand (s : String) : Prop :=
  s.toList ≠ [] ∧ ∀ c ∈ s.toList, isBreak c = false ∧ isSign c = false

instance (s : String) : Decidable (IsOperand s) :=
  @instDecidableAnd _ _ _ (List.decidableBAll _ _)

theorem IsOperand.isWord {s : String} (h : IsOperand s) : IsWord s :=
  ⟨h.1, fun c hc => (h.2 c hc).1⟩

/-- Operators of the stock natives around words, with comparisons of structs. -/
inductive Operation
  | leaf (text : String)
  | before (op : String) (operand : Operation)
  | after (op : String) (operand : Operation)
  /-- An operator between two operands, which may be a comparison of structs. -/
  | between (struct : Bool) (op : String) (lhs rhs : Operation)
deriving DecidableEq, Repr

namespace Operation

/-- Whether it is written with an operator between two operands that is not below the limit. -/
def loose (limit : Nat) : Operation → Bool
  | between _ op _ _ => limit ≤ (stockPrecedence op).toNat
  | _ => false

/-- Whether it is a comparison of structs. -/
def isStruct : Operation → Bool
  | between struct _ _ _ => struct
  | _ => false

/-- Whether it begins with an operator. -/
def isBefore : Operation → Bool
  | before _ _ => true
  | _ => false

/-- Whether it begins with a dash. -/
def isDashed : Operation → Bool
  | before op _ => op = "-" || op = "--"
  | _ => false

/-- Whether it is put in brackets as an operand. -/
def bracketed (limit : Nat) (x : Operation) : Bool :=
  x.loose limit && !x.isStruct

/-- The line of the operation. -/
def line : Operation → String
  | leaf s => s
  | before op x => op ++ bracketedIf (x.bracketed 0) x.line
  | after op x => bracketedIf (x.bracketed 0) x.line ++ op
  | between struct op l r =>
    bracketedIf (!struct && l.bracketed ((stockPrecedence op).toNat + 1)) l.line ++ " " ++ op ++
      " " ++ bracketedIf (!struct && r.bracketed (stockPrecedence op).toNat) r.line

end Operation

/-- The operation is made of stock natives only, from words of a kind. No dash stands in front of
another one as an operator of its own, and no operator stands behind an operand that begins with
one. -/
inductive Legible (word : String → Prop) : Operation → Prop
  | leaf {s : String} : word s → Legible word (.leaf s)
  | before {op : String} {x : Operation} : StockOperator .prefixOp op → Legible word x →
    (op = "-" → x.isDashed = false) → Legible word (.before op x)
  | after {op : String} {x : Operation} : StockOperator .postfixOp op → Legible word x →
    x.isBefore = false → Legible word (.after op x)
  | between {op : String} {l r : Operation} : StockOperator .binaryOp op → Legible word l →
    Legible word r → Legible word (.between false op l r)

open Operation

variable {word : String → Prop} {x l r : Operation} {limit : Nat}

theorem Operation.loose_mono {limit' : Nat} (h : x.loose limit = true) (hle : limit' ≤ limit) :
    x.loose limit' = true := by
  cases x with
  | between struct op l r => exact decide_eq_true (Nat.le_trans hle (of_decide_eq_true h))
  | _ => cases h

theorem Operation.lt_of_loose {limit' : Nat} (h : x.loose limit = true)
    (h' : x.loose limit' = false) : limit < limit' := by
  refine Nat.lt_of_not_le fun hle => ?_
  rw [loose_mono h hle] at h'
  cases h'

theorem Operation.loose_eq_false {limit' : Nat} (h : x.loose limit = false) (hle : limit ≤ limit') :
    x.loose limit' = false :=
  Bool.eq_false_iff.2 fun h' => Nat.not_lt.2 hle (lt_of_loose h' h)

/-- An operation that is loose does not begin with an operator. -/
theorem Operation.isBefore_of_loose (h : x.loose limit = true) : x.isBefore = false := by
  cases x with
  | between => rfl
  | _ => cases h

theorem Operation.isDashed_of_loose (h : x.loose limit = true) : x.isDashed = false := by
  cases x with
  | between => rfl
  | _ => cases h

@[simp] theorem Operation.loose_before (op : String) (x : Operation) (limit : Nat) :
    (before op x).loose limit = false :=
  rfl

@[simp] theorem Operation.loose_after (op : String) (x : Operation) (limit : Nat) :
    (after op x).loose limit = false :=
  rfl

theorem Legible.isStruct (h : Legible word x) : x.isStruct = false := by
  cases h <;> rfl

/-- In what can be read, the brackets that are needed are there. -/
theorem Legible.bracketed (h : Legible word x) (limit : Nat) :
    x.bracketed limit = x.loose limit := by
  rw [Operation.bracketed, h.isStruct, Bool.not_false, Bool.and_true]

theorem Legible.line_before (h : Legible word x) (op : String) :
    (Operation.before op x).line = op ++ bracketedIf (x.loose 0) x.line := by
  rw [line, h.bracketed]

theorem Legible.line_after (h : Legible word x) (op : String) :
    (Operation.after op x).line = bracketedIf (x.loose 0) x.line ++ op := by
  rw [line, h.bracketed]

/-- The line of an operation between two others, each of them in brackets if it binds too loosely.
-/
theorem Legible.line_between (hl : Legible word l) (hr : Legible word r) (op : String) :
    (Operation.between false op l r).line =
      bracketedIf (l.loose ((stockPrecedence op).toNat + 1)) l.line ++ " " ++ op ++ " " ++
        bracketedIf (r.loose (stockPrecedence op).toNat) r.line := by
  rw [line, hl.bracketed, hr.bracketed]
  rfl

/-! ## Readings -/

/-- A dash in front of what was read. In front of another one it is a part of `--`. -/
theorem exists_dash (h : Legible word x) (hdash : StockOperator .prefixOp "-")
    (hx : x.loose 0 = false) :
    ∃ y, Legible word y ∧ y.line = "-" ++ x.line ∧ ∀ limit, y.loose limit = false := by
  have hdashes : ∀ s : String, "-" ++ ("-" ++ s) = "--" ++ s := fun s => by
    rw [← String.append_assoc]
    rfl
  have hthree : ∀ s : String, "-" ++ ("--" ++ s) = "--" ++ ("-" ++ s) := fun s => by
    rw [← String.append_assoc, ← String.append_assoc]
    rfl
  have hplain : ∀ {x : Operation}, Legible word x → x.isDashed = false → x.loose 0 = false →
      ∃ y, Legible word y ∧ y.line = "-" ++ x.line ∧ ∀ limit, y.loose limit = false :=
    fun hx hdashed hloose => ⟨_, .before hdash hx fun _ => hdashed,
      by rw [hx.line_before, hloose, bracketedIf_false], fun _ => rfl⟩
  induction h with
  | leaf hs => exact hplain (.leaf hs) rfl hx
  | after hq hy hbefore => exact hplain (.after hq hy hbefore) rfl hx
  | between ho hl hr => cases hx
  | @before q y hq hy hdashed ih =>
    by_cases hone : q = "-"
    · subst hone
      refine ⟨.before "--" y, .before stockOperator_dashes hy nofun, ?_, fun _ => rfl⟩
      rw [hy.line_before, hy.line_before, hdashes]
    by_cases htwo : q = "--"
    · subst htwo
      cases hloose : y.loose 0 with
      | false =>
        obtain ⟨z, hz, hline, hsame⟩ := ih hloose
        refine ⟨.before "--" z, .before hq hz nofun, ?_, fun _ => rfl⟩
        rw [hz.line_before, hy.line_before, hsame, hloose, hline]
        exact (hthree _).symm
      | true =>
        have hz : Legible word (.before "-" y) :=
          .before hdash hy fun _ => isDashed_of_loose hloose
        refine ⟨.before "--" (.before "-" y), .before hq hz nofun, ?_, fun _ => rfl⟩
        rw [hz.line_before, hy.line_before, hy.line_before, loose_before, bracketedIf_false]
        exact (hthree _).symm
    · exact hplain (.before hq hy hdashed) (by simp [isDashed, hone, htwo]) hx

/-- An operator in front of what was read. -/
theorem exists_prepend (h : Legible word x) (hop : StockOperator .prefixOp op) :
    ∃ y, Legible word y ∧ y.line = op ++ x.line ∧ ∀ limit, y.loose limit = x.loose limit := by
  induction h with
  | @leaf s hs =>
    exact ⟨.before op (.leaf s), .before hop (.leaf hs) fun _ => rfl, rfl, fun _ => rfl⟩
  | @before q x hq hx hdashed ih =>
    by_cases hdash : op = "-"
    · subst hdash
      exact exists_dash (.before hq hx hdashed) hop rfl
    · exact ⟨.before op (.before q x), .before hop (.before hq hx hdashed) (absurd · hdash), rfl,
        fun _ => rfl⟩
  | @after q x hq hx hbefore ih =>
    exact ⟨.before op (.after q x), .before hop (.after hq hx hbefore) fun _ => rfl, rfl,
      fun _ => rfl⟩
  | @between o l r ho hl hr ihl ihr =>
    cases hloose : l.loose ((stockPrecedence o).toNat + 1) with
    | true =>
      have hbefore : Legible word (.before op l) :=
        .before hop hl fun _ => isDashed_of_loose hloose
      refine ⟨.between false o (.before op l) r, .between ho hbefore hr, ?_, fun _ => rfl⟩
      rw [hbefore.line_between hr, hl.line_between hr, hl.line_before, hloose, loose_before,
        loose_mono hloose (Nat.zero_le _), bracketedIf_false]
      simp only [String.append_assoc]
    | false =>
      obtain ⟨y, hy, hline, hsame⟩ := ihl
      refine ⟨.between false o y r, .between ho hy hr, ?_, fun _ => rfl⟩
      rw [hy.line_between hr, hl.line_between hr, hsame, hloose, hline]
      simp only [bracketedIf_false, String.append_assoc]

/-- An operator behind what was read. -/
theorem exists_append (h : Legible word x) (hop : StockOperator .postfixOp op) :
    ∃ y, Legible word y ∧ y.line = x.line ++ op ∧ (∀ limit, y.loose limit = x.loose limit) ∧
      y.isDashed = x.isDashed := by
  induction h with
  | @leaf s hs => exact ⟨.after op (.leaf s), .after hop (.leaf hs) rfl, rfl, fun _ => rfl, rfl⟩
  | @before q x hq hx hdashed ih =>
    cases hloose : x.loose 0 with
    | true =>
      have hafter : Legible word (.after op x) := .after hop hx (isBefore_of_loose hloose)
      refine ⟨.before q (.after op x), .before hq hafter fun _ => rfl, ?_, fun _ => rfl, rfl⟩
      rw [hafter.line_before, hx.line_before, hx.line_after, hloose, loose_after, bracketedIf_false,
        String.append_assoc]
    | false =>
      obtain ⟨y, hy, hline, hsame, hdash⟩ := ih
      refine ⟨.before q y, .before hq hy fun h => hdash.trans (hdashed h), ?_, fun _ => rfl, rfl⟩
      rw [hy.line_before, hx.line_before, hsame, hloose, hline]
      simp only [bracketedIf_false, String.append_assoc]
  | @after q x hq hx hbefore ih =>
    exact ⟨.after op (.after q x), .after hop (.after hq hx hbefore) rfl, rfl, fun _ => rfl, rfl⟩
  | @between o l r ho hl hr ihl ihr =>
    cases hloose : r.loose (stockPrecedence o).toNat with
    | true =>
      have hafter : Legible word (.after op r) := .after hop hr (isBefore_of_loose hloose)
      refine ⟨.between false o l (.after op r), .between ho hl hafter, ?_, fun _ => rfl, rfl⟩
      rw [hl.line_between hafter, hl.line_between hr, hr.line_after, hloose, loose_after,
        loose_mono hloose (Nat.zero_le _), bracketedIf_false]
      simp only [String.append_assoc]
    | false =>
      obtain ⟨y, hy, hline, hsame, -⟩ := ihr
      refine ⟨.between false o l y, .between ho hl hy, ?_, fun _ => rfl, rfl⟩
      rw [hl.line_between hy, hl.line_between hr, hsame, hloose, hline]
      simp only [bracketedIf_false, String.append_assoc]

/-- The reading of an operator between two others, each in brackets or not. It is not looser than
the operator and what is not in brackets. -/
structure Joins (word : String → Prop) (op : String) (lb : Bool) (l : Operation) (rb : Bool)
    (r y : Operation) : Prop where
  legible : Legible word y
  line_eq : y.line = bracketedIf lb l.line ++ " " ++ op ++ " " ++ bracketedIf rb r.line
  loose : y.loose (stockPrecedence op).toNat = true
  tight : ∀ limit, (stockPrecedence op).toNat < limit → (lb = false → l.loose limit = false) →
    (rb = false → r.loose limit = false) → y.loose limit = false

variable {o : String} {lb rb : Bool} {a b y : Operation}

/-- The operator is the root if there are brackets around everything that is too loose for it. -/
theorem joins_between (hop : StockOperator .binaryOp op) (hl : Legible word l)
    (hr : Legible word r) :
    Joins word op (l.loose ((stockPrecedence op).toNat + 1)) l
      (r.loose (stockPrecedence op).toNat) r (.between false op l r) where
  legible := .between hop hl hr
  line_eq := hl.line_between hr op
  loose := decide_eq_true (Nat.le_refl _)
  tight _ hlimit _ _ := decide_eq_false (Nat.not_le.2 hlimit)

/-- The last operand of the left reading is joined with the right one if the root of the left is the
loosest. -/
theorem Joins.left (h : Joins word op (b.loose (stockPrecedence o).toNat) b rb r y)
    (ho : StockOperator .binaryOp o) (ha : Legible word a) (hb : Legible word b)
    (hlt : (stockPrecedence op).toNat < (stockPrecedence o).toNat)
    (hr : rb = false → r.loose (stockPrecedence o).toNat = false) :
    Joins word op false (.between false o a b) rb r (.between false o a y) where
  legible := .between ho ha h.legible
  line_eq := by
    rw [ha.line_between h.legible, ha.line_between hb, h.tight _ hlt id hr, h.line_eq]
    simp only [bracketedIf_false, String.append_assoc]
  loose := decide_eq_true hlt.le
  tight limit _ hlimit _ := hlimit rfl

/-- The left reading is joined with the first operand of the right one if the root of the right is
the loosest. -/
theorem Joins.right (h : Joins word op lb l (a.loose ((stockPrecedence o).toNat + 1)) a y)
    (ho : StockOperator .binaryOp o) (ha : Legible word a) (hb : Legible word b)
    (hle : (stockPrecedence op).toNat ≤ (stockPrecedence o).toNat)
    (hl : lb = false → l.loose ((stockPrecedence o).toNat + 1) = false) :
    Joins word op lb l false (.between false o a b) (.between false o y b) where
  legible := .between ho h.legible hb
  line_eq := by
    rw [h.legible.line_between hb, ha.line_between hb, h.tight _ (Nat.lt_succ_of_le hle) hl id,
      h.line_eq]
    simp only [bracketedIf_false, String.append_assoc]
  loose := decide_eq_true hle
  tight limit _ _ hlimit := hlimit rfl

/-- An operator joins any two readings, in brackets only if they are too loose for it. The last of
the loosest of the operators becomes the root. -/
theorem exists_join (hop : StockOperator .binaryOp op) (hl : Legible word l) (hr : Legible word r)
    (hlb : lb = true → l.loose ((stockPrecedence op).toNat + 1) = true)
    (hrb : rb = true → r.loose (stockPrecedence op).toNat = true) :
    ∃ y, Joins word op lb l rb r y := by
  induction hsize : sizeOf l + sizeOf r using Nat.strong_induction_on generalizing l r lb rb with
  | _ n ih =>
  subst hsize
  by_cases hright : rb = false ∧ r.loose (stockPrecedence op).toNat = true ∧
      (lb = false → ∀ limit, r.loose limit = false → l.loose limit = false)
  · obtain ⟨rfl, hloose, hlimit⟩ := hright
    cases hr with
    | @between o a b ho ha hb =>
      have hle : (stockPrecedence op).toNat ≤ (stockPrecedence o).toNat := of_decide_eq_true hloose
      have hsmaller : sizeOf l + sizeOf a < sizeOf l + sizeOf (Operation.between false o a b) := by
        simp only [Operation.between.sizeOf_spec]
        omega
      obtain ⟨y, hy⟩ := ih _ hsmaller hl ha hlb (fun h => loose_mono h (Nat.le_succ_of_le hle)) rfl
      exact ⟨_, hy.right ho ha hb hle fun h => hlimit h _ (decide_eq_false (by omega))⟩
    | _ => cases hloose
  by_cases hleft : lb = false ∧ l.loose ((stockPrecedence op).toNat + 1) = true
  · obtain ⟨rfl, hloose⟩ := hleft
    cases hl with
    | @between o a b ho ha hb =>
      have hlt : (stockPrecedence op).toNat < (stockPrecedence o).toNat := of_decide_eq_true hloose
      have hsmaller : sizeOf b + sizeOf r < sizeOf (Operation.between false o a b) + sizeOf r := by
        simp only [Operation.between.sizeOf_spec]
        omega
      obtain ⟨y, hy⟩ := ih _ hsmaller hb hr (fun h => loose_mono h hlt) hrb rfl
      refine ⟨_, hy.left ho ha hb hlt fun h => Bool.eq_false_iff.2 fun hr' => hright ⟨h, ?_, ?_⟩⟩
      · exact loose_mono hr' hlt.le
      · exact fun _ limit hlimit => decide_eq_false (Nat.not_le.2 (lt_of_loose hr' hlimit))
    | _ => cases hloose
  · have hl' : l.loose ((stockPrecedence op).toNat + 1) = lb := by
      cases lb with
      | true => exact hlb rfl
      | false => exact Bool.eq_false_iff.2 fun h => hleft ⟨rfl, h⟩
    have hr' : r.loose (stockPrecedence op).toNat = rb := by
      cases rb with
      | true => exact hrb rfl
      | false =>
        refine Bool.eq_false_iff.2 fun h => hright ⟨rfl, h, ?_⟩
        rintro rfl limit hlimit
        exact loose_eq_false hl' (lt_of_loose h hlimit)
    exact ⟨_, hl' ▸ hr' ▸ joins_between hop hl hr⟩

/-! ## Names and shapes -/

/-- The operators are stock natives of the shape they stand for, and the leaves words of a kind. -/
def Operation.Named (word : String → Prop) : Operation → Prop
  | leaf s => word s
  | before op x => StockOperator .prefixOp op ∧ x.Named word
  | after op x => StockOperator .postfixOp op ∧ x.Named word
  | between _ op l r => StockOperator .binaryOp op ∧ l.Named word ∧ r.Named word

/-- Every line can be read. -/
theorem Operation.Named.exists_legible {x : Operation} (h : x.Named word) :
    ∃ y, Legible word y ∧ y.line = x.line ∧
      ∀ limit, x.bracketed limit = true → y.loose limit = true := by
  induction x with
  | leaf s => exact ⟨_, .leaf h, rfl, nofun⟩
  | before op x ih =>
    obtain ⟨y, hy, hline, hloose⟩ := ih h.2
    cases hx : x.bracketed 0 with
    | true =>
      refine ⟨.before op y, .before h.1 hy fun _ => isDashed_of_loose (hloose 0 hx), ?_, nofun⟩
      rw [hy.line_before, line, hx, hloose 0 hx, hline]
    | false =>
      obtain ⟨z, hz, hzline, -⟩ := exists_prepend hy h.1
      exact ⟨z, hz, by rw [hzline, hline, line, hx, bracketedIf_false], nofun⟩
  | after op x ih =>
    obtain ⟨y, hy, hline, hloose⟩ := ih h.2
    cases hx : x.bracketed 0 with
    | true =>
      refine ⟨.after op y, .after h.1 hy (isBefore_of_loose (hloose 0 hx)), ?_, nofun⟩
      rw [hy.line_after, line, hx, hloose 0 hx, hline]
    | false =>
      obtain ⟨z, hz, hzline, -⟩ := exists_append hy h.1
      exact ⟨z, hz, by rw [hzline, hline, line, hx, bracketedIf_false], nofun⟩
  | between struct op l r ihl ihr =>
    obtain ⟨yl, hyl, hlline, hlloose⟩ := ihl h.2.1
    obtain ⟨yr, hyr, hrline, hrloose⟩ := ihr h.2.2
    obtain ⟨y, hy⟩ := exists_join h.1 hyl hyr
      (fun hl => hlloose _ (Bool.and_eq_true_iff.1 hl).2)
      (fun hr => hrloose _ (Bool.and_eq_true_iff.1 hr).2)
    refine ⟨y, hy.legible, by rw [hy.line_eq, hlline, hrline, line], fun limit hlimit => ?_⟩
    exact loose_mono hy.loose (of_decide_eq_true (Bool.and_eq_true_iff.1 hlimit).1)

end UnrealPackage.Script
