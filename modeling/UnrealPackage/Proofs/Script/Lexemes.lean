import Mathlib.Data.List.Chain
import UnrealPackage.Script.Expr.Render
/-!
# Lines cut into words and brackets

A line of a script is read as a row of brackets and words, a word being what stands between brackets
and spaces. Cutting at a bracket or a space cuts the row (`lexemes_append`), and brackets nest in
the row as they do in the line (`balanced_lexemes`).

`Brackets.Balanced` is what stands between a bracket and the one that closes it, which there is only
one of (`Balanced.append_inj`).
-/

namespace UnrealPackage

/-! ## Nesting -/

/-- Which items open a bracket, and which close one. -/
structure Brackets (α : Type) where
  opens : α → Bool
  closes : α → Bool

namespace Brackets

variable {α : Type} {b : Brackets α} {s s' rest rest' : List α} {a : α} {depth depth' : Nat}

/-- How many brackets are open behind an item. One that was not opened cannot be closed. -/
def step (b : Brackets α) (depth : Nat) (a : α) : Option Nat :=
  if b.opens a then some (depth + 1)
  else if b.closes a then if depth = 0 then none else some (depth - 1)
  else some depth

/-- How many brackets are open behind the items if so many are in front of them. -/
def after (b : Brackets α) (depth : Nat) (s : List α) : Option Nat :=
  s.foldlM b.step depth

/-- Every bracket that is opened is closed, and no other. -/
def Balanced (b : Brackets α) (s : List α) : Prop :=
  b.after 0 s = some 0

instance (b : Brackets α) (s : List α) : Decidable (b.Balanced s) :=
  inferInstanceAs (Decidable (_ = _))

theorem step_opens (h : b.opens a = true) : b.step depth a = some (depth + 1) :=
  if_pos h

theorem step_closes (h : b.closes a = true) (h' : b.opens a = false) :
    b.step depth a = if depth = 0 then none else some (depth - 1) := by
  rw [step, if_neg (by rw [h']; exact nofun), if_pos h]

theorem step_plain (h : b.closes a = false) (h' : b.opens a = false) :
    b.step depth a = some depth := by
  rw [step, if_neg (by rw [h']; exact nofun), if_neg (by rw [h]; exact nofun)]

theorem after_cons : b.after depth (a :: s) = (b.step depth a).bind fun depth => b.after depth s :=
  List.foldlM_cons

theorem after_append (b : Brackets α) (depth : Nat) (s s' : List α) :
    b.after depth (s ++ s') = (b.after depth s).bind fun depth => b.after depth s' :=
  List.foldlM_append

/-- More brackets that are open in front stay open. -/
theorem after_add (h : b.after depth s = some depth') (more : Nat) :
    b.after (depth + more) s = some (depth' + more) := by
  induction s generalizing depth with
  | nil =>
    obtain rfl := Option.some.inj h
    rfl
  | cons a s ih =>
    rw [after_cons] at h ⊢
    obtain ⟨next, hstep, h⟩ := Option.bind_eq_some_iff.1 h
    have hstep' : b.step (depth + more) a = some (next + more) := by
      unfold step at hstep ⊢
      grind
    rw [hstep', Option.bind_some]
    exact ih h

namespace Balanced

theorem nil : b.Balanced [] :=
  rfl

/-- What has no brackets is balanced. -/
theorem of_plain (h : ∀ a ∈ s, b.closes a = false ∧ b.opens a = false) : b.Balanced s := by
  induction s with
  | nil => rfl
  | cons a s ih =>
    obtain ⟨ha, hs⟩ := List.forall_mem_cons.1 h
    rw [Balanced, after_cons, step_plain ha.1 ha.2, Option.bind_some]
    exact ih hs

theorem after (h : b.Balanced s) (depth : Nat) : b.after depth s = some depth := by
  have h := after_add h depth
  rwa [Nat.zero_add] at h

theorem append (h : b.Balanced s) (h' : b.Balanced s') : b.Balanced (s ++ s') := by
  rw [Balanced, after_append, h]
  exact h'

/-- A text in brackets is balanced if the text is. -/
theorem bracketed {opening closing : α} (ho : b.opens opening = true)
    (hc : b.closes closing = true) (hc' : b.opens closing = false) (h : b.Balanced s) :
    b.Balanced (opening :: (s ++ [closing])) := by
  rw [Balanced, after_cons, step_opens ho, Option.bind_some, after_append, h.after,
    Option.bind_some, after_cons, step_closes hc hc']
  rfl

theorem of_append (h : b.Balanced s) (h' : b.Balanced (s ++ s')) : b.Balanced s' := by
  rwa [Balanced, after_append, h] at h'

/-- The front of balanced items closes no bracket that it does not open. -/
theorem exists_after (h : b.Balanced (s ++ s')) : ∃ depth, b.after 0 s = some depth := by
  rw [Balanced, after_append] at h
  obtain ⟨depth, hs, -⟩ := Option.bind_eq_some_iff.1 h
  exact ⟨depth, hs⟩

/-- A bracket that was opened is not closed by the front of balanced items. -/
theorem not_open {opening : α} (ho : b.opens opening = true) (h : b.Balanced (s ++ s')) :
    ¬b.Balanced (rest ++ opening :: s) := by
  intro h'
  obtain ⟨inner, hs⟩ := h.exists_after
  obtain ⟨outer, hrest⟩ := h'.exists_after
  rw [Balanced, after_append, hrest, Option.bind_some, after_cons, step_opens ho,
    Option.bind_some] at h'
  have h'' := after_add hs (outer + 1)
  rw [Nat.zero_add, h', Option.some.injEq] at h''
  omega

/-- There is only one bracket that closes another. -/
theorem append_inj {closing : α} (hc : b.closes closing = true) (hc' : b.opens closing = false)
    (h : b.Balanced s) (h' : b.Balanced s') (heq : s ++ closing :: rest = s' ++ closing :: rest') :
    s = s' ∧ rest = rest' := by
  have hclosed : ∀ {s more : List α}, b.Balanced s → ¬b.Balanced (s ++ closing :: more) := by
    intro s more h h'
    rw [Balanced, after_append, h, Option.bind_some, after_cons, step_closes hc hc'] at h'
    cases h'
  rcases List.append_eq_append_iff.1 heq with ⟨more, rfl, hrest⟩ | ⟨more, rfl, hrest⟩
  · cases more with
    | nil => exact ⟨(List.append_nil s).symm, (List.cons.inj hrest).2⟩
    | cons a more =>
      obtain ⟨rfl, -⟩ := List.cons.inj hrest
      exact absurd h' (hclosed h)
  · cases more with
    | nil => exact ⟨List.append_nil s', (List.cons.inj hrest).2.symm⟩
    | cons a more =>
      obtain ⟨rfl, -⟩ := List.cons.inj hrest
      exact absurd h (hclosed h')

end Balanced

end Brackets

namespace Script

/-! ## Words and brackets -/

/-- Round brackets in a text. -/
def roundBrackets : Brackets Char where
  opens c := c == '('
  closes c := c == ')'

/-- Whether the character ends a word. -/
def isBreak (c : Char) : Bool :=
  c == ' ' || c == '(' || c == ')'

/-- The text is not empty and has neither spaces nor brackets. -/
def IsWord (s : String) : Prop :=
  s.toList ≠ [] ∧ ∀ c ∈ s.toList, isBreak c = false

instance (s : String) : Decidable (IsWord s) :=
  @instDecidableAnd _ _ _ (List.decidableBAll _ _)

/-- A bracket, or a word between brackets and spaces. -/
inductive Lexeme
  | opening
  | closing
  | word (text : String)
deriving DecidableEq, Repr

/-- The brackets of a row. -/
def Lexeme.brackets : Brackets Lexeme where
  opens l := l == .opening
  closes l := l == .closing

/-- The word that the characters are, if there are any. -/
def wordOf (w : List Char) : List Lexeme :=
  if w.isEmpty then [] else [.word (String.ofList w)]

/-- What stands in the row for a character that ends a word. -/
def breakLexemes (c : Char) : List Lexeme :=
  if c == '(' then [.opening] else if c == ')' then [.closing] else []

/-- The row of a text behind the characters `w` of a word. -/
def lexemesAfter (w : List Char) : List Char → List Lexeme
  | [] => wordOf w
  | c :: s =>
    if isBreak c then wordOf w ++ (breakLexemes c ++ lexemesAfter [] s)
    else lexemesAfter (w ++ [c]) s

/-- The brackets and words of a text. -/
def lexemes (s : List Char) : List Lexeme :=
  lexemesAfter [] s

variable {s s' w : List Char} {c : Char}

/-- The row is cut where a word ends. -/
theorem lexemesAfter_append (hc : isBreak c = true) (w s rest : List Char) :
    lexemesAfter w (s ++ c :: rest) =
      lexemesAfter w s ++ (breakLexemes c ++ lexemes rest) := by
  induction s generalizing w with
  | nil =>
    simp only [List.nil_append, lexemesAfter, if_pos hc, lexemes]
  | cons a s ih =>
    rw [List.cons_append, lexemesAfter, lexemesAfter]
    split
    · rw [ih, List.append_assoc, List.append_assoc]
    · exact ih _

theorem lexemes_break (hc : isBreak c = true) (s rest : List Char) :
    lexemes (s ++ c :: rest) = lexemes s ++ (breakLexemes c ++ lexemes rest) :=
  lexemesAfter_append hc [] s rest

theorem lexemes_cons (hc : isBreak c = true) (rest : List Char) :
    lexemes (c :: rest) = breakLexemes c ++ lexemes rest :=
  lexemes_break hc [] rest

/-- Without a break, the rest of a text goes on with the word. -/
theorem lexemesAfter_of_plain (h : ∀ c ∈ s, isBreak c = false) (w : List Char) :
    lexemesAfter w s = wordOf (w ++ s) := by
  induction s generalizing w with
  | nil => rw [lexemesAfter, List.append_nil]
  | cons c s ih =>
    obtain ⟨hc, hs⟩ := List.forall_mem_cons.1 h
    rw [lexemesAfter, if_neg (by rw [hc]; exact nofun), ih hs, List.append_assoc]
    rfl

theorem lexemes_word {s : String} (h : IsWord s) : lexemes s.toList = [.word s] := by
  rw [lexemes, lexemesAfter_of_plain h.2, List.nil_append, wordOf,
    if_neg (by rw [List.isEmpty_iff]; exact h.1), String.ofList_toList]

/-- Two words do not run into one where a text is cut beside a space or a bracket. -/
theorem lexemes_append (h : ∀ a ∈ s.getLast?, ∀ c ∈ s'.head?, isBreak a = true ∨ isBreak c = true) :
    lexemes (s ++ s') = lexemes s ++ lexemes s' := by
  cases s' with
  | nil => rw [List.append_nil]; exact (List.append_nil _).symm
  | cons c s' =>
    rcases List.eq_nil_or_concat s with rfl | ⟨front, a, rfl⟩
    · rfl
    · rcases h a (by simp) c rfl with ha | hc
      · rw [List.concat_eq_append, List.append_assoc, List.singleton_append, lexemes_break ha,
          lexemes_break ha, List.append_assoc, List.append_assoc]
        rfl
      · rw [lexemes_break hc, lexemes_cons hc]

/-- Brackets nest in the row as they do in the text. -/
theorem after_lexemesAfter (w s : List Char) (depth : Nat) :
    Lexeme.brackets.after depth (lexemesAfter w s) = roundBrackets.after depth s := by
  have hword : ∀ (w : List Char) (rest : List Lexeme) (depth : Nat),
      Lexeme.brackets.after depth (wordOf w ++ rest) = Lexeme.brackets.after depth rest := by
    intro w rest depth
    rw [wordOf]
    split <;> rfl
  induction s generalizing w depth with
  | nil =>
    have h := hword w [] depth
    rwa [List.append_nil] at h
  | cons c s ih =>
    rw [lexemesAfter, Brackets.after_cons]
    split
    · next hc =>
      rw [hword]
      simp only [isBreak, Bool.or_eq_true, beq_iff_eq, or_assoc] at hc
      rcases hc with rfl | rfl | rfl
      · exact ih [] depth
      · exact ih [] (depth + 1)
      · cases depth with
        | zero => rfl
        | succ depth => exact ih [] depth
    · next hc =>
      simp only [isBreak, Bool.or_eq_true, not_or, Bool.not_eq_true] at hc
      rw [ih, Brackets.step_plain hc.2 hc.1.2, Option.bind_some]

theorem balanced_lexemes (h : roundBrackets.Balanced s) : Lexeme.brackets.Balanced (lexemes s) :=
  (after_lexemesAfter [] s 0).trans h

/-! ## Brackets beside words -/

/-- The characters may follow each other where no bracket touches a word from outside. -/
def Apart (a c : Char) : Prop :=
  (c = '(' → isBreak a = true) ∧ (a = ')' → isBreak c = true)

/-- Characters that are no breaks may follow each other. -/
theorem apart_of_plain {a c : Char} (ha : isBreak a = false) (hc : isBreak c = false) :
    Apart a c := by
  refine ⟨?_, ?_⟩
  · rintro rfl
    cases hc
  · rintro rfl
    cases ha

/-- No bracket of the text touches a word from outside. -/
def Spaced (s : List Char) : Prop :=
  s.IsChain Apart

/-- A text without breaks has no bracket in it. -/
theorem spaced_of_plain (h : ∀ c ∈ s, isBreak c = false) : Spaced s := by
  induction s with
  | nil => exact .nil
  | cons a s ih =>
    obtain ⟨ha, hs⟩ := List.forall_mem_cons.1 h
    exact (ih hs).cons fun c hc => apart_of_plain ha (hs c (List.mem_of_mem_head? hc))

/-- A space may stand between any two texts. -/
theorem Spaced.space (h : Spaced s) (h' : Spaced s') : Spaced (s ++ ' ' :: s') := by
  refine h.append (h'.cons fun c _ => ⟨fun _ => rfl, nofun⟩) fun a _ c hc => ?_
  obtain rfl := Option.some.inj hc
  exact ⟨nofun, fun _ => rfl⟩

theorem Spaced.bracketed (h : Spaced s) : Spaced ('(' :: (s ++ [')'])) := by
  refine List.IsChain.cons ?_ fun c _ => ⟨fun _ => rfl, nofun⟩
  refine h.append (.singleton _) fun a _ c hc => ?_
  obtain rfl := Option.some.inj hc
  exact ⟨nofun, fun _ => rfl⟩

/-- If a pair of brackets is left out of a spaced text, it is left out of the row. -/
theorem lexemes_without {front inner back : List Char}
    (h : Spaced (front ++ '(' :: (inner ++ ')' :: back))) :
    lexemes (front ++ (inner ++ back)) = lexemes front ++ (lexemes inner ++ lexemes back) := by
  obtain ⟨-, hinner, hfront⟩ := List.isChain_append.1 h
  obtain ⟨-, hback, -⟩ := List.isChain_append.1 (hinner.tail)
  rw [lexemes_append fun a ha _ _ => .inl ((hfront a ha _ rfl).1 rfl),
    lexemes_append fun _ _ c hc => .inr ((hback.rel_head? hc).2 rfl)]

theorem lexemes_pair (front inner back : List Char) :
    lexemes (front ++ '(' :: (inner ++ ')' :: back)) =
      lexemes front ++ .opening :: (lexemes inner ++ .closing :: lexemes back) := by
  rw [lexemes_break rfl, lexemes_break rfl]
  rfl

end Script

end UnrealPackage
