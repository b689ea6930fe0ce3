import Mathlib.Logic.Function.Iterate
import UnrealPackage.Proofs.Script.Loops
import UnrealPackage.Proofs.Script.RoundTrip
/-!
# What an untrusted script can cost

A script says itself how long it goes on and how deeply its expressions nest. What is read of it is
bounded by the bytes that are there and by `nestingLimit`, whatever it says.

* `Spells.limits`: an expression consists of no more expressions than bytes spell it, and is no
  higher than there are levels of nesting.
* One level of the reader, `readLevel`, makes a reader out of the one of what is nested in it, and
  `readExpr` is its iteration on a reader that refuses. `UpToDepth` compares a reader with the one
  that has another reader in place of the one that refuses: what is below the last level is asked
  for only where the script is refused.
-/

namespace UnrealPackage.Script

open ScriptDecode

/-! ## Expressions and the bytes that spell them -/

mutual

/-- How many expressions it consists of, itself and all nested ones. -/
def Expr.count : Expr → Nat
  | .atom _ | .reference _ _ | .const _ | .jump _ | .caseElse _ | .labelTable _ => 1
  | .wrap _ e | .typed _ _ e | .switch _ e | .jumpIfNot _ e | .assert _ _ e | .caseOf _ e
  | .skip _ e | .iterator e _ | .conversion e | .cast _ _ e => 1 + e.count
  | .pair _ e₁ e₂ | .context _ e₁ _ _ e₂ | .compare _ _ e₁ e₂ => 1 + e₁.count + e₂.count
  | .remove e₁ e₂ e₃ => 1 + e₁.count + e₂.count + e₃.count
  | .new e₁ e₂ e₃ e₄ => 1 + e₁.count + e₂.count + e₃.count + e₄.count
  | .call _ params => 1 + Expr.countAll params

/-- How many expressions they consist of together. -/
def Expr.countAll : List Expr → Nat
  | [] => 0
  | e :: es => e.count + Expr.countAll es

end

/-- Whether the pieces have a byte for each of the expressions that `e` consists of, and `e` is at
most `levels` high. -/
structure InLimits (levels : Nat) (pieces : List Piece) (e : Expr) : Prop where
  count_le : e.count ≤ (bytesOf pieces).length
  height_le : e.height ≤ levels

section

variable {ctx : Context} {table : OpcodeTable} {next converted : Spelling} {levels : Nat}
  {pieces : List Piece} {e : Expr} {params : List Expr}

/-- The end of the parameters takes a byte and a level of its own. -/
theorem SpellsParams.limits (hnext : ∀ {pieces e}, next pieces e → InLimits levels pieces e)
    (h : SpellsParams next pieces params) :
    Expr.countAll params < (bytesOf pieces).length ∧ max 1 (Expr.heightAll params) ≤ levels := by
  induction h with
  | nil hend =>
    obtain ⟨hcount, hheight⟩ := hnext hend
    exact ⟨hcount, Nat.max_le.2 ⟨hheight, Nat.zero_le _⟩⟩
  | cons he hrest ih =>
    obtain ⟨hcount, hheight⟩ := hnext he
    rw [bytesOf_append, List.length_append, Expr.countAll, Expr.heightAll]
    omega

attribute [local simp] Expr.count Expr.height Piece.bytes in
/-- Every rule of the grammar adds an expression with its opcode, and a level. -/
theorem Phrase.limits (hnext : ∀ {pieces e}, next pieces e → InLimits levels pieces e)
    (hconverted : ∀ {pieces e}, converted pieces e → InLimits levels pieces e)
    (h : Phrase ctx table next converted pieces e) : InLimits (levels + 1) pieces e := by
  cases h with
  | atom | reference | const | jump | caseElse | labelTable =>
    constructor <;> simp
  | wrap hop h | switch hop h | jumpIfNot hop h | assert hop h | skip hop h | iterator hop h
  | cast hop h | typed hop _ h | caseOf hop _ h =>
    obtain ⟨hcount, hheight⟩ := hnext h
    constructor <;> simp <;> omega
  | conversion hop h =>
    obtain ⟨hcount, hheight⟩ := hconverted h
    constructor <;> simp <;> omega
  | pair hop h₁ h₂ | context hop h₁ h₂ | compare hop _ h₁ h₂ =>
    obtain ⟨hcount₁, hheight₁⟩ := hnext h₁
    obtain ⟨hcount₂, hheight₂⟩ := hnext h₂
    constructor <;> simp <;> omega
  | remove hop h₁ h₂ h₃ =>
    obtain ⟨hcount₁, hheight₁⟩ := hnext h₁
    obtain ⟨hcount₂, hheight₂⟩ := hnext h₂
    obtain ⟨hcount₃, hheight₃⟩ := hnext h₃
    constructor <;> simp <;> omega
  | new hop h₁ h₂ h₃ h₄ =>
    obtain ⟨hcount₁, hheight₁⟩ := hnext h₁
    obtain ⟨hcount₂, hheight₂⟩ := hnext h₂
    obtain ⟨hcount₃, hheight₃⟩ := hnext h₃
    obtain ⟨hcount₄, hheight₄⟩ := hnext h₄
    constructor <;> simp <;> omega
  | virtualCall hop _ h _ | globalCall hop _ h _ | finalCall hop _ h _ | nativeCall hop _ _ h _ =>
    obtain ⟨hcount, hheight⟩ := h.limits hnext
    constructor <;> simp <;> omega

theorem Spells.limits (h : Spells ctx levels table pieces e) : InLimits levels pieces e := by
  induction levels generalizing table pieces e with
  | zero => cases h
  | succ levels ih => exact Phrase.limits ih ih h

end

/-! ## One level of the reader -/

/-- The reader of an expression, given the one of what is nested in it. -/
def readLevel (ctx : Context) (read : OpcodeTable → ScriptDecode Expr) (table : OpcodeTable) :
    ScriptDecode Expr := do
  let opcode ← u8
  match lookupOp? ctx.format table opcode with
  | some op => readOperands ctx (read table) (read .conversion) opcode op
  | none =>
    if Opcode.extendedNative ≤ opcode then readNative ctx.natives (read table) opcode
    else throw (.unknownOpcode opcode table.label)

/-- The reader is as many levels as it has left, over one that refuses. -/
theorem readExpr_eq_iterate (ctx : Context) (levels : Nat) :
    readExpr ctx levels =
      (readLevel ctx)^[levels] fun _ => throw (.expressionTooDeep nestingLimit) := by
  induction levels with
  | zero => rfl
  | succ levels ih =>
    rw [Function.iterate_succ_apply', ← ih]
    rfl

/-- Whether `d` does what `d'` does, unless the nesting is too deep for it. -/
abbrev UpToDepth {α : Type} (d d' : ScriptDecode α) : Prop :=
  SameReads (· = .expressionTooDeep nestingLimit) d d'

section

variable {ctx : Context} {next next' converted converted' : ScriptDecode Expr}

/-- With more levels, parameters are read the same unless one was nested too deep. -/
theorem upToDepth_params (h : UpToDepth next next') (bound : Nat) :
    UpToDepth (readParams next bound) (readParams next' bound) := by
  induction bound with
  | zero => exact .refl _
  | succ bound ih =>
    refine h.bind fun e => ?_
    split
    · exact .refl _
    · exact ih.bind fun _ => .refl _

/-- With more levels, the operands of a native function are read the same unless one was nested too
deep. -/
theorem upToDepth_nativeParams (h : UpToDepth next next') (f : NativeFunction) :
    UpToDepth (readNativeParams next f) (readNativeParams next' f) := by
  have hend : UpToDepth (readEndOfOperands next f.name) (readEndOfOperands next' f.name) :=
    h.bind fun _ => .refl _
  unfold readNativeParams
  cases f.shape with
  | prefixOp | postfixOp => exact h.bind fun _ => hend.bind fun _ => .refl _
  | binaryOp => exact h.bind fun _ => h.bind fun _ => hend.bind fun _ => .refl _
  | call => exact SameReads.bind (.refl _) (upToDepth_params h)

/-- With more levels, a native call is read the same unless an operand was nested too deep. -/
theorem upToDepth_native (h : UpToDepth next next') (opcode : UInt8) :
    UpToDepth (readNative ctx.natives next opcode) (readNative ctx.natives next' opcode) := by
  refine SameReads.bind (.refl _) fun index => ?_
  split
  · exact .refl _
  · exact SameReads.bind (.refl _) fun f => (upToDepth_nativeParams h f).bind fun _ => .refl _

/-- With more levels, the operands of an opcode are read the same unless one was nested too deep. -/
theorem upToDepth_operands (h : UpToDepth next next') (hconverted : UpToDepth converted converted')
    (opcode : UInt8) (op : Op) :
    UpToDepth (readOperands ctx next converted opcode op)
      (readOperands ctx next' converted' opcode op) := by
  cases op with
  | atom | reference | const | jump | labelTable => exact .refl _
  | wrap | cast => exact h.map _
  | conversion => exact hconverted.map _
  | pair => exact h.bind fun _ => h.bind fun _ => .refl _
  | remove => exact h.bind fun _ => h.bind fun _ => h.bind fun _ => .refl _
  | new => exact h.bind fun _ => h.bind fun _ => h.bind fun _ => h.bind fun _ => .refl _
  | iterator => exact h.bind fun _ => .refl _
  | typed | switch | jumpIfNot | skip =>
    exact SameReads.bind (.refl _) fun _ => h.bind fun _ => .refl _
  | assert =>
    exact SameReads.bind (.refl _) fun _ => SameReads.bind (.refl _) fun _ =>
      h.bind fun _ => .refl _
  | compare =>
    exact SameReads.bind (.refl _) fun _ => h.bind fun _ => h.bind fun _ => .refl _
  | context =>
    exact h.bind fun _ => SameReads.bind (.refl _) fun _ => SameReads.bind (.refl _) fun _ =>
      h.bind fun _ => .refl _
  | case =>
    refine SameReads.bind (.refl _) fun offset => ?_
    split
    · exact .refl _
    · exact h.bind fun _ => .refl _
  | virtualFunction | globalFunction | finalFunction =>
    exact SameReads.bind (.refl _) fun _ => SameReads.bind (.refl _) fun bound =>
      (upToDepth_params h bound).bind fun _ => .refl _

/-- With more levels below it, a level reads the same unless something was nested too deep. -/
theorem upToDepth_level {read read' : OpcodeTable → ScriptDecode Expr}
    (h : ∀ table, UpToDepth (read table) (read' table)) (table : OpcodeTable) :
    UpToDepth (readLevel ctx read table) (readLevel ctx read' table) := by
  refine SameReads.bind (.refl _) fun opcode => ?_
  split
  · exact upToDepth_operands (h table) (h .conversion) opcode _
  · split
    · exact upToDepth_native (h table) opcode
    · exact .refl _

/-- What is put in place of the reader that refuses is asked for only where it refuses. -/
theorem upToDepth_readExpr (deeper : OpcodeTable → ScriptDecode Expr) (levels : Nat)
    (table : OpcodeTable) :
    UpToDepth (readExpr ctx levels table) ((readLevel ctx)^[levels] deeper table) := by
  rw [readExpr_eq_iterate]
  induction levels generalizing table with
  | zero => exact fun _ => .inr ⟨_, rfl, rfl⟩
  | succ levels ih =>
    rw [Function.iterate_succ_apply', Function.iterate_succ_apply']
    exact upToDepth_level ih table

end

/-! ## Scripts -/

section

variable {ctx : Context} {size used : UInt32} {input rest : List UInt8} {statements : List Expr}
  {result result' : Except Error ((List Expr × UInt32) × List UInt8)}

/-- With more levels, a statement is read the same unless it was nested too deep. -/
theorem upToDepth_statementTurn {next next' : ScriptDecode Expr} (h : UpToDepth next next')
    (size : UInt32) : UpToDepth (statementTurn next size) (statementTurn next' size) := by
  refine SameReads.bind (.refl _) fun p => ?_
  split
  · exact .refl _
  · exact h.map _

/-- Runs that end, with so many levels and with more, give the same unless a statement was nested
too deep. -/
theorem Runs.upToDepth {next next' : ScriptDecode Expr} (h : UpToDepth next next')
    (hruns : Runs next size input result) (hruns' : Runs next' size input result') :
    result = result' ∨ result = .error (.expressionTooDeep nestingLimit) := by
  obtain ⟨outcome, hloops, rfl⟩ := hruns
  obtain ⟨outcome', hloops', rfl⟩ := hruns'
  have hturn : ∀ done, UpToDepth (collect (statementTurn next size) done)
      (collect (statementTurn next' size) done) :=
    fun _ => (upToDepth_statementTurn h size).map _
  rcases hloops.sameUnless hturn hloops' with rfl | ⟨_, rfl, rfl⟩
  · exact .inl rfl
  · exact .inr rfl

/-- Statements consist of no more expressions than bytes, and each of them is within the levels. -/
theorem SpellsStatements.limits {spelled : List (List Piece)}
    (h : SpellsStatements ctx size used spelled statements) :
    Expr.countAll statements ≤ (bytesOf spelled.flatten).length ∧
      ∀ e ∈ statements, e.height ≤ nestingLimit := by
  induction h with
  | nil => exact ⟨Nat.zero_le _, nofun⟩
  | cons hsize he hrest ih =>
    obtain ⟨hcount, hheight⟩ := he.limits
    rw [List.flatten_cons, bytesOf_append, List.length_append, Expr.countAll]
    exact ⟨by omega, List.forall_mem_cons.2 ⟨hheight, ih.2⟩⟩

/-- What holds of a script that was read, whatever it says of itself. -/
structure WithinLimits (ctx : Context) (size : UInt32) (input : List UInt8)
    (statements : List Expr) (used : UInt32) (rest : List UInt8) : Prop where
  suffix : rest <:+ input
  /-- The statements consist of no more expressions, nested ones included, than bytes were
  consumed. -/
  countAll_le : Expr.countAll statements ≤ input.length - rest.length
  height_le : ∀ e ∈ statements, e.height ≤ nestingLimit
  size_le : size ≤ used
  /-- The counter says what the statements take in memory, four bytes for each that was consumed or
  less: it begins again for no script of less than a gigabyte. -/
  used_eq : ∃ loaded, used = .ofNat loaded ∧ loaded ≤ 4 * (input.length - rest.length)
  /-- Every statement, the last one too, begins where the size is not used yet. -/
  begins_lt : ∃ bounds, Boundaries ctx ⟨input, 0⟩ statements bounds ⟨rest, used⟩ ∧
    ∀ b ∈ bounds.dropLast, b < size

/-- Every script that is read stays within the limits. -/
theorem withinLimits_of_decodeSized
    (h : decodeSized ctx size input = .ok ((statements, used), rest)) :
    WithinLimits ctx size input statements used rest := by
  obtain ⟨spelled, hs, hinput, hused⟩ := spelled_of_decodeSized h
  obtain ⟨hcount, hheight⟩ := hs.limits
  have hlength : input.length - rest.length = (bytesOf spelled.flatten).length := by
    rw [hinput, List.length_append, Nat.add_sub_cancel]
  obtain ⟨_ | ⟨es, q⟩, hloops, hmap⟩ := runs_iff.2 h
  · cases hmap
  · cases hmap
    obtain ⟨hsize, hbegins⟩ := hloops.boundaries
    rw [← hlength] at hcount
    refine ⟨⟨_, hinput.symm⟩, hcount, hheight, hsize, ⟨_, hused, ?_⟩, hbegins⟩
    rw [hlength]
    exact loadedSizeOf_le _

/-- Whatever reader is put below the last level, a script is read as it is without one, or
refused. -/
theorem Runs.eq_or_refused {deeper : OpcodeTable → ScriptDecode Expr}
    (hruns : Runs ((readLevel ctx)^[nestingLimit] deeper .main) size input result) :
    decodeSized ctx size input = result ∨
      decodeSized ctx size input = .error (.expressionTooDeep nestingLimit) :=
  (runs_iff.2 rfl).upToDepth (upToDepth_readExpr deeper nestingLimit .main) hruns

/-- A script is refused if a reader with more levels finds an expression in it that is too high. -/
theorem Runs.refused {more : Nat}
    (hruns : Runs (readExpr ctx (nestingLimit + more) .main) size input
      (.ok ((statements, used), rest)))
    (hdeep : ∃ e ∈ statements, nestingLimit < e.height) :
    decodeSized ctx size input = .error (.expressionTooDeep nestingLimit) := by
  obtain ⟨e, he, hheight⟩ := hdeep
  -- more levels are the levels there are, over another reader than the one that refuses
  rw [readExpr_eq_iterate, Function.iterate_add_apply] at hruns
  rcases hruns.eq_or_refused with hsame | hrefused
  · exact absurd ((withinLimits_of_decodeSized hsame).height_le e he) (Nat.not_le.2 hheight)
  · exact hrefused

end

/-! ## The limit is sharp -/

section

variable {ctx : Context} {n levels : Nat}

/-- Returns around nothing are read by as many levels. -/
theorem reads_returns (h : n < levels) :
    Reads (readExpr ctx levels .main) (returnBytes n) (n + 1) (returns n) := by
  induction n generalizing levels with
  | zero =>
    obtain ⟨levels, rfl⟩ := Nat.exists_eq_add_one_of_ne_zero (Nat.ne_of_gt h)
    exact reads_lead (means_nothing ctx) (.pure _)
  | succ n ih =>
    obtain ⟨levels, rfl⟩ := Nat.exists_eq_add_one_of_ne_zero (Nat.ne_of_gt (Nat.zero_lt_of_lt h))
    have hoperand := ih (Nat.lt_of_succ_lt_succ h)
    exact (reads_lead (means_return ctx) (hoperand.map _)).congr rfl (Nat.add_comm _ _)

/-- They are a whole script, as long as the counter holds its size. -/
theorem runs_returns (h : n < levels) (hsize : n + 1 < 0x100000000) (rest : List UInt8) :
    Runs (readExpr ctx levels .main) (.ofNat (n + 1)) (returnBytes n ++ rest)
      (.ok (([returns n], .ofNat (n + 1)), rest)) := by
  have hread : readExpr ctx levels .main ⟨returnBytes n ++ rest, 0⟩ =
      .ok (returns n, ⟨rest, 0 + .ofNat (n + 1)⟩) := reads_returns h rest 0
  rw [UInt32.zero_add] at hread
  have hfirst := statementTurn_eq_more.2 ⟨ofNat_lt_ofNat (Nat.succ_pos n) hsize, hread⟩
  have hend : statementTurn (readExpr ctx levels .main) (.ofNat (n + 1)) ⟨rest, .ofNat (n + 1)⟩ =
      .ok (.last [], ⟨rest, .ofNat (n + 1)⟩) := statementTurn_of_le (UInt32.le_refl _)
  exact ⟨_, .more (collect_eq_yield.2 ⟨_, hfirst, rfl⟩) (.last (collect_eq_done.2 ⟨_, hend, rfl⟩)),
    rfl⟩

/-- Returns around nothing are read if they and what they return are no more than the limit, and
refused otherwise. -/
theorem decodeSized_returns (ctx : Context) (hsize : n + 1 < 0x100000000) (rest : List UInt8) :
    decodeSized ctx (.ofNat (n + 1)) (returnBytes n ++ rest) =
      if n < nestingLimit then .ok (([returns n], .ofNat (n + 1)), rest)
      else .error (.expressionTooDeep nestingLimit) := by
  split
  · next hlt => exact runs_iff.1 (runs_returns hlt hsize rest)
  · next hge =>
    have hlevels : n < nestingLimit + (n + 1) := by omega
    refine (runs_returns hlevels hsize rest).refused ⟨returns n, List.mem_singleton_self _, ?_⟩
    rw [height_returns]
    omega

end

/-! ## Untrusted scripts -/

/-- Scripts of any content are bounded.

The reader ends: its loops over statements, arguments and labels have a run without any bound on
their turns, wherever they begin, and it is the run that the reader with bounds makes. A script that
is read is within its limits. Below the last level nothing is read: whatever reader is put there,
the script is read as it is without one, or refused for its nesting, and it is refused whenever a
reader with more levels finds an expression in it that is nested more deeply. -/
theorem decodeSized_bounded (ctx : Context) (size : UInt32) (input : List UInt8) :
    (∀ result, Runs (readExpr ctx nestingLimit .main) size input result ↔
        decodeSized ctx size input = result) ∧
      (∀ levels table p result, Loops (paramTurn (readExpr ctx levels table)) p result ↔
        (itemBound >>= readParams (readExpr ctx levels table)) p = result) ∧
      (∀ noneIndex p result, Loops (labelTurn noneIndex) p result ↔
        (itemBound >>= readLabels noneIndex) p = result) ∧
      (∀ statements used rest, decodeSized ctx size input = .ok ((statements, used), rest) →
        WithinLimits ctx size input statements used rest) ∧
      (∀ deeper result, Runs ((readLevel ctx)^[nestingLimit] deeper .main) size input result →
        decodeSized ctx size input = result ∨
          decodeSized ctx size input = .error (.expressionTooDeep nestingLimit)) ∧
      (∀ more statements used rest,
        Runs (readExpr ctx (nestingLimit + more) .main) size input
          (.ok ((statements, used), rest)) →
        (∃ e ∈ statements, nestingLimit < e.height) →
        decodeSized ctx size input = .error (.expressionTooDeep nestingLimit)) ∧
      nestingLimit = 128 ∧
      (Error.expressionTooDeep nestingLimit).message =
        "Format error: expression nesting deeper than 128" := by
  refine ⟨fun _ => runs_iff, fun levels table _ _ => ?_, fun noneIndex _ _ => ?_,
    fun _ _ _ => withinLimits_of_decodeSized, fun _ _ => Runs.eq_or_refused,
    fun _ _ _ _ => Runs.refused, rfl, rfl⟩
  · exact loops_iff (readParams_succ _) (consumes_params ctx levels table)
  · exact loops_iff (readLabels_succ noneIndex) (consumes_labels noneIndex)

/-- A script that is read, and one that a reader with one level more would read. -/
theorem decodeSized_bounded_returns :
    WithinLimits .anyNativeLatin 7 longJump longJumpStatements 7 [] ∧
      Runs (readExpr .anyNativeLatin (nestingLimit + 1) .main) 129 (returnBytes 128)
        (.ok (([returns 128], 129), [])) ∧
      decodeSized .anyNativeLatin 129 (returnBytes 128) = .error (.expressionTooDeep 128) := by
  obtain ⟨-, -, -, hlimits, -⟩ := decodeSized_bounded .anyNativeLatin 7 longJump
  obtain ⟨-, -, -, -, -, hrefused, -⟩ := decodeSized_bounded .anyNativeLatin 129 (returnBytes 128)
  have hruns : Runs (readExpr .anyNativeLatin (nestingLimit + 1) .main) 129 (returnBytes 128)
      (.ok (([returns 128], 129), [])) := by
    rw [← List.append_nil (returnBytes 128)]
    exact runs_returns (Nat.lt_succ_self nestingLimit) (by decide) []
  have hheight : nestingLimit < (returns 128).height := by
    rw [height_returns]
    exact Nat.lt_succ_self _
  exact ⟨hlimits _ _ _ decodeSized_longJump, hruns,
    hrefused 1 _ _ _ hruns ⟨_, List.mem_singleton_self _, hheight⟩⟩

end UnrealPackage.Script
