import UnrealPackage.Proofs.Binary.Bounds
import UnrealPackage.Proofs.Script.Boundaries
/-!
# The loops of the script reader end

Labels, arguments and statements are read in loops that go on until the script itself says that they
are over. The reader gives each of them a bound, one turn more than bytes are left; these bounds are
never reached.

`Loops turn p outcome` is a run of a loop that takes its turns without any bound and collects the
items that they read. A turn behind which a loop goes on takes a byte at least (`Consumes`), so each
of the three loops has a run wherever it begins, and only the one that the reader makes
(`loops_iff`). `Runs` is the reader of whole scripts on top of such a loop.
-/

namespace UnrealPackage.Script

open ScriptDecode

/-! ## Loops over items -/

/-- What one turn of a loop reads: an item behind which the loop goes on, or the items with which it
ends. -/
inductive Turn (α : Type)
  | more (item : α)
  | last (items : List α)

/-- What a loop has read behind a turn, if it had read `done` in front of it. -/
def Turn.after {α : Type} (done : List α) : Turn α → ForInStep (List α)
  | more item => .yield (done ++ [item])
  | last items => .done (done ++ items)

/-- A turn of the loop that collects the items. -/
def collect {α : Type} (turn : ScriptDecode (Turn α)) (done : List α) :
    ScriptDecode (ForInStep (List α)) :=
  Turn.after done <$> turn

/-- A run of the loop that takes turns until one of them fails or is the last one, and collects the
items that they read. -/
def Loops {α : Type} (turn : ScriptDecode (Turn α)) (p : Position)
    (outcome : Except Error (List α × Position)) : Prop :=
  Repeats (collect turn) [] p outcome

/-- Whether a turn behind which the loop goes on leaves fewer bytes than it found. -/
def Consumes {α : Type} (turn : ScriptDecode (Turn α)) : Prop :=
  ∀ ⦃p item q⦄, turn p = .ok (.more item, q) → q.rest.length < p.rest.length

/-- What a loop reads from a turn on, if `rest` reads what follows one behind which it goes on. -/
def Turn.goOn {α : Type} (rest : ScriptDecode (List α)) : Turn α → ScriptDecode (List α)
  | more item => (item :: ·) <$> rest
  | last items => pure items

section

variable {α : Type} {turn : ScriptDecode (Turn α)} {loop : Nat → ScriptDecode (List α)}
  {done done' : List α} {p q : Position} {result : Except Error (List α × Position)}

/-- The loop goes on with what a turn has added. -/
theorem collect_eq_yield : collect turn done p = .ok (.yield done', q) ↔
    ∃ item, turn p = .ok (.more item, q) ∧ done' = done ++ [item] := by
  rw [collect, stateT_map_eq_ok]
  constructor
  · rintro ⟨item | items, hturn, hafter⟩
    · cases hafter
      exact ⟨item, hturn, rfl⟩
    · cases hafter
  · rintro ⟨item, hturn, rfl⟩
    exact ⟨_, hturn, rfl⟩

/-- The loop ends with what its last turn has added. -/
theorem collect_eq_done : collect turn done p = .ok (.done done', q) ↔
    ∃ items, turn p = .ok (.last items, q) ∧ done' = done ++ items := by
  rw [collect, stateT_map_eq_ok]
  constructor
  · rintro ⟨item | items, hturn, hafter⟩
    · cases hafter
    · cases hafter
      exact ⟨items, hturn, rfl⟩
  · rintro ⟨items, hturn, rfl⟩
    exact ⟨_, hturn, rfl⟩

theorem Consumes.lowers (h : Consumes turn) : Lowers (·.rest.length) (collect turn) := by
  intro done done' p q hturn
  obtain ⟨item, hturn, -⟩ := collect_eq_yield.1 hturn
  exact h hturn

/-- A loop that puts its items together on the way back reads what one reads that collects them. -/
theorem unrolls_collect (hloop : ∀ bound, loop (bound + 1) = turn >>= Turn.goOn (loop bound)) :
    Unrolls (collect turn) fun bound done => (done ++ ·) <$> loop bound := by
  intro bound done
  dsimp only
  rw [hloop, collect, map_bind, bind_map_left]
  refine bind_congr fun t => ?_
  cases t with
  | more item =>
    show (done ++ ·) <$> (item :: ·) <$> loop bound = (done ++ [item] ++ ·) <$> loop bound
    simp only [Functor.map_map, List.append_assoc, List.singleton_append]
  | last items => exact map_pure _ _

/-- A loop that may take one turn more than bytes are left is the loop without a bound, which ends
wherever it begins. -/
theorem loops_iff (hloop : ∀ bound, loop (bound + 1) = turn >>= Turn.goOn (loop bound))
    (hturn : Consumes turn) : Loops turn p result ↔ (itemBound >>= loop) p = result := by
  have hiff : Loops turn p result ↔ (([] ++ ·) <$> loop (p.rest.length + 1)) p = result :=
    (unrolls_collect hloop).repeats_iff hturn.lowers
  simp only [List.nil_append, id_map'] at hiff
  exact hiff

end

/-! ## The loops of the reader -/

/-- A turn of the loop over labels. -/
def labelTurn (noneIndex : Option Nat) : ScriptDecode (Turn Label) := do
  let name ← compact
  let offset ← i32
  match noneIndex with
  | none => throw (.nameNotFound noneName)
  | some i =>
    if name = Int32.ofNat i then pure (.last [⟨name, offset⟩])
    else pure (.more ⟨name, offset⟩)

/-- A turn of the loop over arguments. -/
def paramTurn (next : ScriptDecode Expr) : ScriptDecode (Turn Expr) := do
  match ← next with
  | .atom .endOfParams => pure (.last [])
  | param => pure (.more param)

/-- A turn of the loop over statements. -/
def statementTurn (next : ScriptDecode Expr) (size : UInt32) : ScriptDecode (Turn Expr) := do
  let p ← get
  if size ≤ p.used then pure (.last [])
  else .more <$> next

/-- Labels are read by one turn, and by the loop behind it. -/
theorem readLabels_succ (noneIndex : Option Nat) (bound : Nat) :
    readLabels noneIndex (bound + 1) =
      labelTurn noneIndex >>= Turn.goOn (readLabels noneIndex bound) := by
  rw [readLabels, labelTurn]
  simp only [bind_assoc]
  refine bind_congr fun name => bind_congr fun offset => ?_
  cases noneIndex with
  | none => rfl
  | some i =>
    dsimp only
    split <;> rfl

/-- Parameters are read by one turn, and by the loop behind it. -/
theorem readParams_succ (next : ScriptDecode Expr) (bound : Nat) :
    readParams next (bound + 1) = paramTurn next >>= Turn.goOn (readParams next bound) := by
  rw [readParams, paramTurn, bind_assoc]
  refine bind_congr fun e => ?_
  -- loop and turn look at the expression in the same way, but each with a match of its own
  cases e with
  | atom a => cases a <;> rfl
  | _ => rfl

/-- Statements are read by one turn, and by the loop behind it. -/
theorem readStatements_succ (ctx : Context) (size : UInt32) (bound : Nat) :
    readStatements ctx size (bound + 1) =
      statementTurn (readExpr ctx nestingLimit .main) size >>=
        Turn.goOn (readStatements ctx size bound) := by
  rw [readStatements, statementTurn, bind_assoc]
  refine bind_congr fun p => ?_
  split
  · rfl
  · rw [bind_map_left]
    rfl

/-! ## Turns that go on -/

section

variable {ctx : Context} {levels : Nat} {size : UInt32} {table : OpcodeTable} {e : Expr}
  {p q : Position}
  {next : ScriptDecode Expr}

/-- An expression takes a byte at least. -/
theorem length_rest_lt_of_readExpr (h : readExpr ctx levels table p = .ok (e, q)) :
    q.rest.length < p.rest.length := by
  obtain ⟨pieces, hs, ht⟩ := readExpr_accepts ctx levels table h
  have hpos := length_pos_of_reads (Spells.reads ctx levels table hs)
  rw [ht.rest, List.length_append]
  omega

/-- Each label takes bytes. -/
theorem consumes_labels (noneIndex : Option Nat) : Consumes (labelTurn noneIndex) := by
  intro p item q h
  obtain ⟨name, m₁, _, -, ht₁, h₁⟩ := accepts_compact.step h
  obtain ⟨offset, m₂, _, rfl, ht₂, h₂⟩ := accepts_i32.step h₁
  have hlt : m₂.rest.length < p.rest.length := by
    rw [ht₁.rest, ht₂.rest]
    simp only [bytesOf_cons, Piece.bytes, List.length_append, Encode.length_i32]
    omega
  cases noneIndex with
  | none => cases h₂
  | some i =>
    dsimp only at h₂
    split at h₂
    · cases h₂
    · cases h₂
      exact hlt

/-- Each parameter takes bytes. -/
theorem consumes_params (ctx : Context) (levels : Nat) (table : OpcodeTable) :
    Consumes (paramTurn (readExpr ctx levels table)) := by
  intro p item q h
  obtain ⟨e, m, he, h₁⟩ := stateT_bind_eq_ok.1 h
  have hlt := length_rest_lt_of_readExpr he
  split at h₁
  · cases h₁
  · cases h₁
    exact hlt

theorem statementTurn_of_le (h : size ≤ p.used) :
    statementTurn next size p = .ok (.last [], p) := by
  show (if size ≤ p.used then pure (.last []) else Turn.more <$> next : ScriptDecode _) p = _
  rw [if_pos h]
  rfl

theorem statementTurn_of_lt (h : p.used < size) :
    statementTurn next size p = (Turn.more <$> next) p := by
  show (if size ≤ p.used then pure (.last []) else Turn.more <$> next : ScriptDecode _) p = _
  rw [if_neg (UInt32.not_le.2 h)]

/-- A turn behind which statements go on begins below the size and reads one of them. -/
theorem statementTurn_eq_more :
    statementTurn next size p = .ok (.more e, q) ↔ p.used < size ∧ next p = .ok (e, q) := by
  rcases UInt32.lt_or_le p.used size with hlt | hge
  · rw [statementTurn_of_lt hlt, stateT_map_eq_ok]
    constructor
    · rintro ⟨e', he, hmore⟩
      cases hmore
      exact ⟨hlt, he⟩
    · exact fun h => ⟨e, h.2, rfl⟩
  · rw [statementTurn_of_le hge]
    exact ⟨nofun, fun h => absurd h.1 (UInt32.not_lt.2 hge)⟩

/-- The last turn is the one that finds the size used. -/
theorem statementTurn_eq_last {items : List Expr} :
    statementTurn next size p = .ok (.last items, q) ↔ size ≤ p.used ∧ items = [] ∧ q = p := by
  rcases UInt32.lt_or_le p.used size with hlt | hge
  · rw [statementTurn_of_lt hlt, stateT_map_eq_ok]
    exact ⟨nofun, fun h => absurd h.1 (UInt32.not_le.2 hlt)⟩
  · rw [statementTurn_of_le hge]
    constructor
    · intro h
      cases h
      exact ⟨hge, rfl, rfl⟩
    · rintro ⟨-, rfl, rfl⟩
      rfl

theorem consumes_statements (ctx : Context) (size : UInt32) :
    Consumes (statementTurn (readExpr ctx nestingLimit .main) size) :=
  fun _ _ _ h => length_rest_lt_of_readExpr (statementTurn_eq_more.1 h).2

end

/-! ## Scripts -/

section

variable {ctx : Context} {size : UInt32} {input : List UInt8} {p q : Position}
  {statements : List Expr} {result : Except Error ((List Expr × UInt32) × List UInt8)}

/-- The statements with the size that was used and the bytes that are left. -/
def scriptOf : List Expr × Position → (List Expr × UInt32) × List UInt8
  | (statements, p) => ((statements, p.used), p.rest)

/-- A run of the script reader without a bound on its statements, each of them read by `next`. -/
def Runs (next : ScriptDecode Expr) (size : UInt32) (input : List UInt8)
    (result : Except Error ((List Expr × UInt32) × List UInt8)) : Prop :=
  ∃ outcome, Loops (statementTurn next size) ⟨input, 0⟩ outcome ∧ outcome.map scriptOf = result

/-- The reader without a bound on its statements has a run on every input, and gives what the
reader with a bound gives. -/
theorem runs_iff :
    Runs (readExpr ctx nestingLimit .main) size input result ↔
      decodeSized ctx size input = result := by
  have hloops : ∀ {outcome}, Loops (statementTurn (readExpr ctx nestingLimit .main) size)
      ⟨input, 0⟩ outcome ↔ (itemBound >>= readStatements ctx size) ⟨input, 0⟩ = outcome :=
    loops_iff (readStatements_succ ctx size) (consumes_statements ctx size)
  constructor
  · rintro ⟨outcome, hruns, rfl⟩
    rw [← hloops.1 hruns]
    rfl
  · rintro rfl
    exact ⟨_, hloops.2 rfl, rfl⟩

/-- Every statement begins where the size is not reached, and the last one ends where it is. -/
theorem boundaries_of_repeats {done : List Expr} {outcome : Except Error (List Expr × Position)}
    (h : Repeats (collect (statementTurn (readExpr ctx nestingLimit .main) size)) done p outcome) :
    ∀ {statements q}, outcome = .ok (statements, q) →
      ∃ es bounds, statements = done ++ es ∧ size ≤ q.used ∧ Boundaries ctx p es bounds q ∧
        ∀ b ∈ bounds.dropLast, b < size := by
  induction h with
  | fails => exact nofun
  | last hstep =>
    intro statements q hok
    cases hok
    obtain ⟨items, hturn, rfl⟩ := collect_eq_done.1 hstep
    obtain ⟨hsize, rfl, rfl⟩ := statementTurn_eq_last.1 hturn
    exact ⟨[], [_], rfl, hsize, .nil _, nofun⟩
  | more hstep hrest ih =>
    intro statements q hok
    obtain ⟨e, hturn, rfl⟩ := collect_eq_yield.1 hstep
    obtain ⟨hlt, hread⟩ := statementTurn_eq_more.1 hturn
    obtain ⟨es, bounds, rfl, hsize, hb, hbounds⟩ := ih hok
    have hne : bounds ≠ [] := List.ne_nil_of_length_eq_add_one hb.length_eq
    refine ⟨e :: es, _, List.append_assoc .., hsize, .cons hread hb, ?_⟩
    rw [List.dropLast_cons_of_ne_nil hne]
    exact List.forall_mem_cons.2 ⟨hlt, hbounds⟩

/-- Statements that are read without a bound have boundaries, all of them but the last below the
size. -/
theorem Loops.boundaries
    (h : Loops (statementTurn (readExpr ctx nestingLimit .main) size) p (.ok (statements, q))) :
    size ≤ q.used ∧ ∃ bounds, Boundaries ctx p statements bounds q ∧
      ∀ b ∈ bounds.dropLast, b < size := by
  obtain ⟨es, bounds, rfl, hsize, hb, hbounds⟩ := boundaries_of_repeats h rfl
  exact ⟨hsize, bounds, hb, hbounds⟩

end

end UnrealPackage.Script
