import UnrealPackage.Proofs.Script.Lexemes
/-!
# Operators read back from a line

A line that is made of operators between operands is read by precedence climbing (`reparse`): an
operator of a smaller precedence binds more tightly, operators of one precedence associate to the
left, and brackets override both. `reparse_lines` says that this gives back the tree that the line
was made from, and that no pair of brackets can be left out.

`Written` is the grammar behind it, with the looser operators excluded by a limit. A row stands for
one tree (`Written.unique`). Each tree has a row that it is written as (`OperatorTree.canonical`),
of all its rows the one with the fewest brackets (`Written.count_canonical`). A row without one of
its pairs is still that of some tree (`Formed.without`, `Formed.exists_written`), but of no tree
that needs the pair.
-/

namespace UnrealPackage.Script

/-- Operators between operands. -/
inductive OperatorTree
  | leaf (text : String)
  | node (op : String) (lhs rhs : OperatorTree)
deriving DecidableEq, Repr

/-! ## Precedence climbing -/

/-- A limit that every operator is below. -/
def loosest : Nat := 256

section Climb

/-- A tree that was read from a row, and what is left of the row: fewer than `n` lexemes. -/
structure Climbed (n : Nat) where
  tree : OperatorTree
  rest : List Lexeme
  length_rest : rest.length < n

/-- The tree and what is left behind it. -/
def Climbed.result {n : Nat} (r : Climbed n) : OperatorTree × List Lexeme :=
  (r.tree, r.rest)

/-- What was read is also what was read from a longer row. -/
def Climbed.widen {m n : Nat} (r : Climbed m) (h : m ≤ n) : Climbed n :=
  ⟨r.tree, r.rest, Nat.lt_of_lt_of_le r.length_rest h⟩

variable (precedence : String → UInt8)

mutual

/-- Reads an operand: a word, or anything in brackets. -/
def readOperand : (row : List Lexeme) → Option (Climbed row.length)
  | .word s :: rest => some ⟨.leaf s, rest, Nat.lt_succ_self _⟩
  | .opening :: inner => do
    match ← climb loosest inner with
    | ⟨tree, .closing :: rest, h⟩ => some ⟨tree, rest, Nat.lt_succ_of_lt (Nat.lt_of_succ_lt h)⟩
    | _ => none
  | _ => none
termination_by row => 2 * row.length

/-- Reads an operand and what follows it up to an operator that is not below the limit. -/
def climb (limit : Nat) (row : List Lexeme) : Option (Climbed row.length) := do
  let ⟨lhs, rest, h⟩ ← readOperand row
  (·.widen h) <$> extend limit lhs rest
termination_by 2 * row.length + 1

/-- Makes `lhs` the left operand of the operator that follows while that is below the limit. -/
def extend (limit : Nat) (lhs : OperatorTree) :
    (row : List Lexeme) → Option (Climbed (row.length + 1))
  | .word op :: row =>
    if (precedence op).toNat < limit then do
      let ⟨rhs, rest, h⟩ ← climb (precedence op).toNat row
      (·.widen (Nat.le_succ_of_le (Nat.le_succ_of_le h))) <$> extend limit (.node op lhs rhs) rest
    else some ⟨lhs, .word op :: row, Nat.lt_succ_self _⟩
  | row => some ⟨lhs, row, Nat.lt_succ_self _⟩
termination_by row => 2 * row.length

end

end Climb

/-- The tree that a whole line is read as. -/
def reparse (precedence : String → UInt8) (line : String) : Option OperatorTree :=
  match (climb precedence loosest (lexemes line.toList)).map Climbed.result with
  | some (tree, []) => some tree
  | _ => none

/-! ## The grammar -/

/-- The row stands for the tree, and outside of brackets it has operators below the limit only. -/
inductive Written (precedence : String → UInt8) : Nat → List Lexeme → OperatorTree → Prop
  | leaf {limit : Nat} {s : String} : Written precedence limit [.word s] (.leaf s)
  | bracketed {limit : Nat} {row : List Lexeme} {tree : OperatorTree} :
    Written precedence loosest row tree →
      Written precedence limit (.opening :: (row ++ [.closing])) tree
  | node {limit : Nat} {op : String} {left right : List Lexeme} {lhs rhs : OperatorTree} :
    (precedence op).toNat < limit → Written precedence ((precedence op).toNat + 1) left lhs →
      Written precedence (precedence op).toNat right rhs →
      Written precedence limit (left ++ .word op :: right) (.node op lhs rhs)

variable {precedence : String → UInt8} {limit : Nat} {row rest : List Lexeme} {tree : OperatorTree}

/-- An operator that is not below the limit ends what is read. -/
theorem extend_eq_self (h : ∀ op more, rest = .word op :: more → limit ≤ (precedence op).toNat) :
    (extend precedence limit tree rest).map Climbed.result = some (tree, rest) := by
  rw [extend.eq_def]
  split
  · next op rest =>
    rw [if_neg (Nat.not_lt.2 (h op rest rfl))]
    rfl
  · rfl

theorem extend_nil :
    (extend precedence limit tree []).map Climbed.result = some (tree, []) :=
  extend_eq_self (by rintro _ _ ⟨⟩)

theorem extend_closing :
    (extend precedence limit tree (.closing :: rest)).map Climbed.result =
      some (tree, .closing :: rest) :=
  extend_eq_self (by rintro _ _ ⟨⟩)

/-- An operator that binds tightly enough takes the operand behind it and what binds tighter, and
goes on. -/
theorem extend_word {op : String} (h : (precedence op).toNat < limit) :
    (extend precedence limit tree (.word op :: row)).map Climbed.result =
      ((climb precedence (precedence op).toNat row).map Climbed.result).bind fun r =>
        (extend precedence limit (.node op tree r.1) r.2).map Climbed.result := by
  rw [extend.eq_def]
  simp only [if_pos h, Option.bind_eq_bind, Option.map_bind, Option.bind_map]
  exact congrArg _ (funext fun _ => Option.map_map ..)

/-- A row is read as its first operand, and what extends it. -/
theorem climb_eq :
    (climb precedence limit row).map Climbed.result =
      ((readOperand precedence row).map Climbed.result).bind fun r =>
        (extend precedence limit r.1 r.2).map Climbed.result := by
  rw [climb.eq_def]
  simp only [Option.bind_eq_bind, Option.map_bind, Option.bind_map]
  exact congrArg _ (funext fun _ => Option.map_map ..)

/-- Behind an opening bracket, a row up to the closing one is an operand. -/
theorem readOperand_opening
    (h : (climb precedence loosest row).map Climbed.result = some (tree, .closing :: rest)) :
    (readOperand precedence (.opening :: row)).map Climbed.result = some (tree, rest) := by
  obtain ⟨⟨_, _, hlength⟩, hclimb, hresult⟩ := Option.map_eq_some_iff.1 h
  obtain ⟨rfl, rfl⟩ := Prod.mk.inj hresult
  rw [readOperand.eq_def]
  simp only [hclimb]
  rfl

/-- Climbing reads a row as the tree it stands for and goes on behind it. The operator that follows
must not bind more tightly than the loosest of the row, or it would take the last operand. -/
theorem Written.climb (h : Written precedence limit row tree) {limit' : Nat}
    (hlimit : limit ≤ limit')
    (hrest : ∀ op more, rest = .word op :: more → limit ≤ (precedence op).toNat + 1) :
    (climb precedence limit' (row ++ rest)).map Climbed.result =
      (extend precedence limit' tree rest).map Climbed.result := by
  induction h generalizing limit' rest with
  | leaf =>
    rw [climb_eq, List.singleton_append, readOperand.eq_def]
    rfl
  | @bracketed limit row tree h ih =>
    have hinner : (Script.climb precedence loosest (row ++ .closing :: rest)).map Climbed.result =
        some (tree, .closing :: rest) :=
      (ih (Nat.le_refl loosest) (by rintro _ _ ⟨⟩)).trans extend_closing
    rw [climb_eq, List.cons_append, List.append_assoc, List.singleton_append,
      readOperand_opening hinner]
    rfl
  | @node limit op left right lhs rhs hop hleft hright ihleft ihright =>
    have hop' : (precedence op).toNat < limit' := Nat.lt_of_lt_of_le hop hlimit
    have hstop : ∀ op' more, rest = .word op' :: more →
        (precedence op).toNat ≤ (precedence op').toNat := fun op' more h => by
      have := hrest op' more h
      omega
    have hself : ∀ op' more, .word op :: right ++ rest = .word op' :: more →
        (precedence op).toNat + 1 ≤ (precedence op').toNat + 1 := by
      rintro _ _ ⟨⟩
      exact Nat.le_refl _
    rw [List.append_assoc, ihleft hop' hself, List.cons_append, extend_word hop',
      ihright (Nat.le_refl _) fun op' more h => Nat.le_succ_of_le (hstop op' more h),
      extend_eq_self hstop]
    rfl

/-- A whole row is read as the tree it stands for. -/
theorem Written.climb_nil (h : Written precedence loosest row tree) :
    (Script.climb precedence loosest row).map Climbed.result = some (tree, []) := by
  have hclimb : (Script.climb precedence loosest (row ++ [])).map Climbed.result =
      some (tree, []) :=
    (h.climb (Nat.le_refl _) (by rintro _ _ ⟨⟩)).trans extend_nil
  rwa [List.append_nil] at hclimb

theorem Written.reparse {line : String}
    (h : Written precedence loosest (lexemes line.toList) tree) :
    reparse precedence line = some tree := by
  rw [Script.reparse, h.climb_nil]

/-- A row stands for one tree. -/
theorem Written.unique {tree' : OperatorTree} (h : Written precedence loosest row tree)
    (h' : Written precedence loosest row tree') : tree = tree' := by
  exact (Prod.mk.inj (Option.some.inj (h.climb_nil.symm.trans h'.climb_nil))).1

/-! ## The row of a tree -/

namespace OperatorTree

/-- Whether the operator of the tree is below the limit. -/
def fits (precedence : String → UInt8) (limit : Nat) : OperatorTree → Bool
  | leaf _ => true
  | node op _ _ => (precedence op).toNat < limit

/-- The row in brackets unless `b`. -/
def bracketedUnless (b : Bool) (row : List Lexeme) : List Lexeme :=
  if b then row else .opening :: (row ++ [.closing])

/-- The row of the tree, with brackets around a left operand that binds less tightly than the
operator, and around a right one that does not bind more tightly. -/
def canonical (precedence : String → UInt8) : OperatorTree → List Lexeme
  | leaf s => [.word s]
  | node op lhs rhs =>
    bracketedUnless (lhs.fits precedence ((precedence op).toNat + 1)) (lhs.canonical precedence) ++
      .word op ::
        bracketedUnless (rhs.fits precedence (precedence op).toNat) (rhs.canonical precedence)

theorem fits_loosest (tree : OperatorTree) : tree.fits precedence loosest = true := by
  cases tree with
  | leaf s => rfl
  | node op lhs rhs => exact decide_eq_true (precedence op).toNat_lt

end OperatorTree

open OperatorTree

/-- A tree that is below the limit is written as its row, and every other one in brackets. -/
theorem written_canonical (tree : OperatorTree) (limit : Nat) :
    Written precedence limit
      (bracketedUnless (tree.fits precedence limit) (tree.canonical precedence)) tree := by
  have hbrackets : ∀ {tree : OperatorTree},
      (∀ {limit}, tree.fits precedence limit = true →
        Written precedence limit (tree.canonical precedence) tree) →
      ∀ limit, Written precedence limit
        (bracketedUnless (tree.fits precedence limit) (tree.canonical precedence)) tree := by
    intro tree h limit
    cases hfits : tree.fits precedence limit with
    | true => exact h hfits
    | false => exact .bracketed (h tree.fits_loosest)
  refine hbrackets ?_ limit
  induction tree with
  | leaf s => exact fun _ => .leaf
  | node op lhs rhs ihlhs ihrhs =>
    exact fun hfits => .node (of_decide_eq_true hfits) (hbrackets ihlhs _) (hbrackets ihrhs _)

theorem written_canonical_loosest (precedence : String → UInt8) (tree : OperatorTree) :
    Written precedence loosest (tree.canonical precedence) tree := by
  have h : Written precedence loosest _ tree := written_canonical tree loosest
  rwa [fits_loosest, bracketedUnless, if_pos rfl] at h

/-- No row of a tree has fewer brackets than the one that it is written as. -/
theorem Written.count_canonical (h : Written precedence limit row tree) :
    (bracketedUnless (tree.fits precedence limit) (tree.canonical precedence)).count .opening ≤
      row.count .opening := by
  induction h with
  | leaf => exact Nat.le_refl _
  | @bracketed limit row tree h ih =>
    rw [fits_loosest] at ih
    have hle : ∀ b, (bracketedUnless b (tree.canonical precedence)).count .opening ≤
        (tree.canonical precedence).count .opening + 1 := by
      intro b
      cases b <;> simp [bracketedUnless]
    have := hle (tree.fits precedence limit)
    simp only [bracketedUnless, if_true] at ih
    simp only [List.count_cons_self, List.count_append]
    omega
  | @node limit op left right lhs rhs hop hleft hright ihleft ihright =>
    rw [fits, decide_eq_true hop, bracketedUnless, if_pos rfl, OperatorTree.canonical]
    simp only [List.count_append, List.count_cons]
    omega

/-! ## Rows without a pair of brackets -/

/-- Words and brackets in an order that makes sense. -/
inductive Formed : List Lexeme → Prop
  | word {s : String} : Formed [.word s]
  | bracketed {row : List Lexeme} : Formed row → Formed (.opening :: (row ++ [.closing]))
  | joined {op : String} {left right : List Lexeme} :
    Formed left → Formed right → Formed (left ++ .word op :: right)

theorem Written.formed (h : Written precedence limit row tree) : Formed row := by
  induction h with
  | leaf => exact .word
  | bracketed _ ih => exact .bracketed ih
  | node _ _ _ ihleft ihright => exact .joined ihleft ihright

/-- A row that is well formed has its brackets in pairs. -/
theorem Formed.balanced (h : Formed row) : Lexeme.brackets.Balanced row := by
  have hword : ∀ s, Lexeme.brackets.Balanced [.word s] := fun _ => rfl
  induction h with
  | word => exact hword _
  | bracketed _ ih => exact ih.bracketed rfl rfl rfl
  | joined _ _ ihleft ihright => exact ihleft.append ((hword _).append ihright)

/-- A row still makes sense without one of its pairs of brackets. -/
theorem Formed.without (h : Formed row) {front inner back : List Lexeme}
    (hrow : row = front ++ .opening :: (inner ++ .closing :: back))
    (hinner : Lexeme.brackets.Balanced inner) : Formed (front ++ (inner ++ back)) := by
  induction h generalizing front back with
  | word =>
    rcases front with _ | ⟨_, _ | _⟩ <;> cases hrow
  | @bracketed row h ih =>
    cases front with
    | nil =>
      -- the outer pair: there is only one bracket that closes it
      obtain ⟨rfl, rfl⟩ := h.balanced.append_inj rfl rfl hinner (List.cons.inj hrow).2
      rwa [List.nil_append, List.append_nil]
    | cons a front =>
      obtain ⟨rfl, htail⟩ := List.cons.inj hrow
      rcases List.eq_nil_or_concat back with rfl | ⟨back, last, rfl⟩
      · have hinit : row ++ [.closing] = (front ++ .opening :: inner) ++ [.closing] := by
          simpa using htail
        obtain rfl := (List.append_inj' hinit rfl).1
        rw [← List.append_nil inner] at hinner
        exact absurd h.balanced (hinner.not_open rfl)
      · have hinit : row ++ [.closing] =
            (front ++ .opening :: (inner ++ .closing :: back)) ++ [last] := by
          simpa using htail
        obtain ⟨rfl, hlast⟩ := List.append_inj' hinit rfl
        obtain ⟨rfl, -⟩ := List.cons.inj hlast
        have hshorter := (ih rfl).bracketed
        simpa using hshorter
  | @joined op left right hleft hright ihleft ihright =>
    rcases List.append_eq_append_iff.1 hrow with ⟨more, rfl, hright'⟩ | ⟨more, rfl, hleft'⟩
    · cases more with
      | nil => cases hright'
      | cons a more =>
        obtain ⟨rfl, rfl⟩ := List.cons.inj hright'
        have hshorter : Formed (left ++ .word op :: (more ++ (inner ++ back))) :=
          hleft.joined (ihright rfl)
        simpa using hshorter
    · cases more with
      | nil => cases hleft'
      | cons a more =>
        obtain ⟨rfl, hmore⟩ := List.cons.inj hleft'
        rcases List.append_eq_append_iff.1 hmore with ⟨more', rfl, hback⟩ | ⟨more', rfl, hback⟩
        · cases more' with
          | nil => cases hback
          | cons b more' =>
            obtain ⟨rfl, rfl⟩ := List.cons.inj hback
            have hshorter : Formed (front ++ (inner ++ more') ++ .word op :: right) :=
              (ihleft rfl).joined hright
            simpa using hshorter
        · exact absurd hleft.balanced (hinner.not_open rfl)

/-- An operator and an operand behind a row become a part of its last operand, unless the operator
binds no more tightly than the loosest of the row. -/
theorem Written.snoc (h : Written precedence limit row tree) {op : String} {last : List Lexeme}
    {operand : OperatorTree} (hlast : ∀ limit, Written precedence limit last operand)
    (hop : (precedence op).toNat < limit) :
    ∃ tree, Written precedence limit (row ++ .word op :: last) tree := by
  induction h with
  | leaf => exact ⟨_, .node hop .leaf (hlast _)⟩
  | bracketed h => exact ⟨_, .node hop (.bracketed h) (hlast _)⟩
  | @node limit root left right lhs rhs hroot hleft hright _ ihright =>
    by_cases htight : (precedence op).toNat < (precedence root).toNat
    · obtain ⟨rhs', hrhs'⟩ := ihright htight
      have hrow := Written.node hroot hleft hrhs'
      rw [← List.cons_append, ← List.append_assoc] at hrow
      exact ⟨_, hrow⟩
    · exact ⟨_, .node hop (.node (by omega) hleft hright) (hlast _)⟩

/-- Words and brackets in an order that makes sense stand for a tree, also behind another row. -/
theorem Formed.exists_written_append (h : Formed row) (precedence : String → UInt8) :
    (∃ tree, Written precedence loosest row tree) ∧
      ∀ op {front tree}, Written precedence loosest front tree →
        ∃ tree, Written precedence loosest (front ++ .word op :: row) tree := by
  have hop : ∀ op, (precedence op).toNat < loosest := fun op => (precedence op).toNat_lt
  induction h with
  | word => exact ⟨⟨_, .leaf⟩, fun op _ _ hfront => hfront.snoc (fun _ => .leaf) (hop op)⟩
  | bracketed _ ih =>
    obtain ⟨⟨tree, htree⟩, -⟩ := ih
    exact ⟨⟨_, .bracketed htree⟩, fun op _ _ hfront =>
      hfront.snoc (fun _ => .bracketed htree) (hop op)⟩
  | @joined op left right _ _ ihleft ihright =>
    obtain ⟨⟨lhs, hlhs⟩, hafter⟩ := ihleft
    refine ⟨ihright.2 op hlhs, fun op' front _ hfront => ?_⟩
    obtain ⟨tree, htree⟩ := hafter op' hfront
    obtain ⟨tree', htree'⟩ := ihright.2 op htree
    rw [List.append_assoc, List.cons_append] at htree'
    exact ⟨tree', htree'⟩

theorem Formed.exists_written (h : Formed row) (precedence : String → UInt8) :
    ∃ tree, Written precedence loosest row tree :=
  (h.exists_written_append precedence).1

/-! ## The line of a tree of operators -/

/-- The expression is made of operators between words, with conversions, which leave no trace. -/
inductive Outlines (t : Tables) (precedence : String → UInt8) : Expr → OperatorTree → Prop
  | leaf {e : Expr} {s : String} : e.render t = .ok s → IsWord s → Outlines t precedence e (.leaf s)
  | node {f : NativeFunction} {lhs rhs : Expr} {left right : OperatorTree} :
    f.shape = .binaryOp → IsWord f.name → precedence f.name = f.precedence →
      Outlines t precedence lhs left → Outlines t precedence rhs right →
      Outlines t precedence (.call (.native f) [lhs, rhs]) (.node f.name left right)
  | conversion {e : Expr} {tree : OperatorTree} :
    Outlines t precedence e tree → Outlines t precedence (.conversion e) tree

variable {t : Tables} {e : Expr} {f : NativeFunction} {params : List Expr} {s : String}

/-- The text of a native call is put together from those of its operands. -/
theorem render_native {texts : List String} (h : Expr.renderAll t params = .ok texts) :
    (Expr.call (.native f) params).render t = .ok (nativeText f params texts) := by
  rw [Expr.render, h]
  rfl

theorem renderAll_pair {lhs rhs : Expr} {left right : String} (hleft : lhs.render t = .ok left)
    (hright : rhs.render t = .ok right) : Expr.renderAll t [lhs, rhs] = .ok [left, right] := by
  rw [Expr.renderAll, Expr.renderAll, Expr.renderAll, hleft, hright]
  rfl

/-- A call of a binary operator has a space or a bracket in its text. -/
theorem exists_isBreak_nativeText (hf : f.shape = .binaryOp) (texts : List String) :
    ∃ c ∈ (nativeText f params texts).toList, isBreak c = true := by
  have hbreak : ∀ (a b : String) (c : Char), c ∈ (a ++ (String.singleton c ++ b)).toList :=
    fun a b c => by simp
  simp only [nativeText, hf]
  split
  · contradiction
  · contradiction
  · rw [String.append_assoc, String.append_assoc, String.append_assoc]
    exact ⟨' ', hbreak _ _ ' ', rfl⟩
  · rw [String.append_assoc, String.append_assoc]
    exact ⟨'(', hbreak _ _ '(', rfl⟩

/-- The line of a binary operation has a break in it, so it is no word. -/
theorem exists_isBreak_of_binaryPrecedence? {q : UInt8} (hq : e.binaryPrecedence? = some q)
    (h : e.render t = .ok s) : ∃ c ∈ s.toList, isBreak c = true := by
  fun_induction Expr.binaryPrecedence? e with
  | case1 f params hf =>
    rw [Expr.render] at h
    cases htexts : Expr.renderAll t params with
    | error err => rw [htexts] at h; cases h
    | ok texts =>
      rw [htexts] at h
      obtain rfl := Except.ok.inj h
      exact exists_isBreak_nativeText hf texts
  | case2 => cases hq
  | case3 operand ih =>
    rw [Expr.render] at h
    exact ih hq h
  | case4 => cases hq

/-- What is written as a word is not written with an operator between two operands. -/
theorem binaryPrecedence?_of_isWord (h : e.render t = .ok s) (hs : IsWord s) :
    e.binaryPrecedence? = none := by
  cases hq : e.binaryPrecedence? with
  | none => rfl
  | some q =>
    obtain ⟨c, hmem, hc⟩ := exists_isBreak_of_binaryPrecedence? hq h
    rw [hs.2 c hmem] at hc
    cases hc

/-- A limit that the root of the tree is not below calls for brackets. -/
theorem Outlines.any_binaryPrecedence? (h : Outlines t precedence e tree) (limit : Nat) :
    (e.binaryPrecedence?.any fun q => limit ≤ q.toNat) = !tree.fits precedence limit := by
  induction h with
  | leaf h hs => rw [binaryPrecedence?_of_isWord h hs]; rfl
  | node hf _ hp =>
    rw [Expr.binaryPrecedence?, if_pos hf, Option.any_some, OperatorTree.fits, hp, ← decide_not]
    simp only [Nat.not_lt]
  | conversion _ ih => exact ih

@[simp] theorem bracketedIf_true (s : String) : bracketedIf true s = "(" ++ s ++ ")" :=
  rfl

@[simp] theorem bracketedIf_false (s : String) : bracketedIf false s = s :=
  rfl

/-- The text is made of the row, and no bracket of it touches a word from outside. -/
structure MadeOf (s : String) (row : List Lexeme) : Prop where
  lexemes_eq : lexemes s.toList = row
  spaced : Spaced s.toList

theorem MadeOf.word (h : IsWord s) : MadeOf s [.word s] :=
  ⟨lexemes_word h, spaced_of_plain h.2⟩

/-- A text in brackets is made of its row in brackets. -/
theorem MadeOf.bracketedIf (h : MadeOf s row) (b : Bool) :
    MadeOf (bracketedIf b s) (bracketedUnless (!b) row) := by
  cases b with
  | false => exact h
  | true =>
    rw [bracketedIf_true]
    have hchars : ("(" ++ s ++ ")").toList = '(' :: (s.toList ++ [')']) := by simp
    constructor
    · have hpair := lexemes_pair [] s.toList []
      rw [hchars, ← h.lexemes_eq]
      exact hpair
    · rw [hchars]
      exact h.spaced.bracketed

/-- Two texts with an operator and spaces between them. -/
theorem MadeOf.binary {left op right : String} {lrow rrow : List Lexeme} (hl : MadeOf left lrow)
    (hop : IsWord op) (hr : MadeOf right rrow) :
    MadeOf (left ++ " " ++ op ++ " " ++ right) (lrow ++ .word op :: rrow) := by
  have hchars : (left ++ " " ++ op ++ " " ++ right).toList =
      left.toList ++ ' ' :: (op.toList ++ ' ' :: right.toList) := by simp
  constructor
  · rw [hchars, lexemes_break rfl, lexemes_break rfl, hl.lexemes_eq, hr.lexemes_eq,
      lexemes_word hop]
    rfl
  · rw [hchars]
    exact hl.spaced.space ((spaced_of_plain hop.2).space hr.spaced)

/-- Brackets stand where the tree needs them. -/
theorem Outlines.render (h : Outlines t precedence e tree) :
    ∃ s, e.render t = .ok s ∧ MadeOf s (tree.canonical precedence) := by
  induction h with
  | leaf h hs => exact ⟨_, h, .word hs⟩
  | @node f lhs rhs left right hf hname hp hleft hright ihleft ihright =>
    obtain ⟨ltext, hltext, hlrow⟩ := ihleft
    obtain ⟨rtext, hrtext, hrrow⟩ := ihright
    refine ⟨_, render_native (renderAll_pair hltext hrtext), ?_⟩
    have hl : MadeOf (leftOperand f.precedence lhs ltext)
        (bracketedUnless (left.fits precedence (f.precedence.toNat + 1))
          (left.canonical precedence)) := by
      have hneeds := hleft.any_binaryPrecedence? (f.precedence.toNat + 1)
      have hmade := hlrow.bracketedIf
        (lhs.binaryPrecedence?.any fun q => f.precedence.toNat + 1 ≤ q.toNat)
      rwa [hneeds, Bool.not_not, ← hneeds] at hmade
    have hr : MadeOf (rightOperand f.precedence rhs rtext)
        (bracketedUnless (right.fits precedence f.precedence.toNat)
          (right.canonical precedence)) := by
      have hneeds := hright.any_binaryPrecedence? f.precedence.toNat
      have hmade := hrrow.bracketedIf
        (rhs.binaryPrecedence?.any fun q => f.precedence.toNat ≤ q.toNat)
      rwa [hneeds, Bool.not_not, ← hneeds] at hmade
    simp only [nativeText, hf]
    rw [OperatorTree.canonical, hp]
    exact hl.binary hname hr
  | conversion _ ih =>
    obtain ⟨s, hs, hrow⟩ := ih
    exact ⟨s, by rw [Expr.render, hs], hrow⟩

/-- Without one of its pairs of brackets the row of a tree stands for another tree. -/
theorem exists_written_without {front inner back : List Lexeme}
    (h : tree.canonical precedence = front ++ .opening :: (inner ++ .closing :: back))
    (hinner : Lexeme.brackets.Balanced inner) :
    ∃ tree', Written precedence loosest (front ++ (inner ++ back)) tree' ∧ tree' ≠ tree := by
  have hformed := (written_canonical_loosest precedence tree).formed
  obtain ⟨tree', htree'⟩ := (hformed.without h hinner).exists_written precedence
  refine ⟨tree', htree', ?_⟩
  rintro rfl
  have hcount := htree'.count_canonical
  rw [fits_loosest, bracketedUnless, if_pos rfl, h] at hcount
  rw [List.count_append, List.count_append, List.count_append, List.count_cons_self,
    List.count_append, List.count_cons_of_ne (nofun : Lexeme.closing ≠ .opening)] at hcount
  omega

/-- The line of a statement made of operators is read back as its tree, without the conversions, and
with any pair of brackets left out of the line it is read as another tree. -/
theorem reparse_lines (h : Outlines t precedence e tree) :
    ∃ line, lines t [e] = .ok [line] ∧ reparse precedence line = some tree ∧
      ∀ front inner back, line = front ++ "(" ++ inner ++ ")" ++ back →
        roundBrackets.Balanced inner.toList →
          ∃ tree', reparse precedence (front ++ inner ++ back) = some tree' ∧ tree' ≠ tree := by
  obtain ⟨line, hline, hrow⟩ := h.render
  have hwritten := written_canonical_loosest precedence tree
  refine ⟨line, ?_, Written.reparse (hrow.lexemes_eq ▸ hwritten), ?_⟩
  · rw [lines, Expr.renderAll, Expr.renderAll, hline]
    rfl
  · rintro front inner back rfl hinner
    have hchars : (front ++ "(" ++ inner ++ ")" ++ back).toList =
        front.toList ++ '(' :: (inner.toList ++ ')' :: back.toList) := by simp
    have hchars' : (front ++ inner ++ back).toList =
        front.toList ++ (inner.toList ++ back.toList) := by simp
    have hpair := hrow.lexemes_eq
    rw [hchars, lexemes_pair] at hpair
    obtain ⟨tree', htree', hne⟩ := exists_written_without hpair.symm (balanced_lexemes hinner)
    refine ⟨tree', Written.reparse ?_, hne⟩
    rw [hchars', lexemes_without (hchars ▸ hrow.spaced)]
    exact htree'

/-- The precedence of addition and of multiplication, and that of nothing else. -/
def sumPrecedence (op : String) : UInt8 :=
  if op = "*" then 16 else if op = "+" then 20 else 0

/-- `(self + none) * self`, with a conversion of the sum. -/
def productOfSum : Expr :=
  .call (.native ⟨144, "*", false, 16, true⟩)
    [.conversion (.call (.native ⟨146, "+", false, 20, true⟩) [.atom .selfObject, .atom .noObject]),
      .atom .selfObject]

/-- The tree of `productOfSum`. -/
def productOfSumTree : OperatorTree :=
  .node "*" (.node "+" (.leaf "self") (.leaf "none")) (.leaf "self")

/-- The product of a sum: its brackets are needed. -/
theorem reparse_lines_product :
    Outlines ⟨"", [], [], []⟩ sumPrecedence productOfSum productOfSumTree ∧
      ∃ line, lines ⟨"", [], [], []⟩ [productOfSum] = .ok [line] ∧
        reparse sumPrecedence line = some productOfSumTree ∧
        ∀ front inner back, line = front ++ "(" ++ inner ++ ")" ++ back →
          roundBrackets.Balanced inner.toList →
            ∃ tree', reparse sumPrecedence (front ++ inner ++ back) = some tree' ∧
              tree' ≠ productOfSumTree := by
  have hatom : ∀ a, IsWord (Atom.render a) →
      Outlines ⟨"", [], [], []⟩ sumPrecedence (.atom a) (.leaf (Atom.render a)) :=
    fun a ha => .leaf (by rw [Expr.render]; rfl) ha
  have h : Outlines ⟨"", [], [], []⟩ sumPrecedence productOfSum productOfSumTree :=
    .node rfl (by decide) rfl
      (.conversion (.node rfl (by decide) rfl (hatom .selfObject (by decide))
        (hatom .noObject (by decide))))
      (hatom .selfObject (by decide))
  exact ⟨h, reparse_lines h⟩

end UnrealPackage.Script
