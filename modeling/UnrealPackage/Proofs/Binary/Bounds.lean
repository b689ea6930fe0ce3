import UnrealPackage.Proofs.Binary.Reads
/-!
# What bounds a reader

Input that nobody vouches for is read by loops that go on until the input itself says that they are
over, and by readers that go down as many levels as it nests. The readers here put a bound on both.

* `Repeats turn` is a run of a loop that takes its turns without any bound, as a relation. Every run
  is finite, so a loop that has a run ends. Where each turn lowers a measure, the loop has a run
  wherever it begins, and it is the run of the loop with a bound (`Unrolls.repeats_iff`).
* `SameReads` compares a reader with one that may go down further: the first one does the same, or
  refuses the input.
-/

namespace UnrealPackage

/-! ## Loops without a bound -/

/-- A run of the loop that takes turns on a value until one of them fails or is the last one. -/
inductive Repeats {σ α : Type} (turn : α → StateT σ (Except Error) (ForInStep α)) :
    α → σ → Except Error (α × σ) → Prop
  | fails {a : α} {s : σ} {e : Error} (h : turn a s = .error e) : Repeats turn a s (.error e)
  | last {a a' : α} {s s' : σ} (h : turn a s = .ok (.done a', s')) :
    Repeats turn a s (.ok (a', s'))
  | more {a a' : α} {s s' : σ} {result : Except Error (α × σ)}
    (h : turn a s = .ok (.yield a', s')) (hrest : Repeats turn a' s' result) :
    Repeats turn a s result

/-- What a loop does behind a turn, if `rest` goes on with it. -/
def goOn {σ α : Type} (rest : α → StateT σ (Except Error) α) :
    ForInStep α → StateT σ (Except Error) α
  | .yield a => rest a
  | .done a => pure a

/-- Whether a loop with a bound on its turns begins with this turn. -/
def Unrolls {σ α : Type} (turn : α → StateT σ (Except Error) (ForInStep α))
    (loop : Nat → α → StateT σ (Except Error) α) : Prop :=
  ∀ bound a, loop (bound + 1) a = turn a >>= goOn (loop bound)

/-- Whether a turn behind which the loop goes on lowers the measure of what is left. -/
def Lowers {σ α : Type} (measure : σ → Nat) (turn : α → StateT σ (Except Error) (ForInStep α)) :
    Prop :=
  ∀ ⦃a a' s s'⦄, turn a s = .ok (.yield a', s') → measure s' < measure s

section

variable {σ α : Type} {turn : α → StateT σ (Except Error) (ForInStep α)}
  {loop : Nat → α → StateT σ (Except Error) α} {measure : σ → Nat} {a a' : α} {s s' : σ}
  {result result' : Except Error (α × σ)}

/-- A run whose first turn is not the last one goes on behind it. -/
theorem Repeats.of_more (h : Repeats turn a s result) (hturn : turn a s = .ok (.yield a', s')) :
    Repeats turn a' s' result := by
  cases h with
  | fails hturn' | last hturn' => cases hturn.symm.trans hturn'
  | more hturn' hrest =>
    cases hturn.symm.trans hturn'
    exact hrest

/-- A loop has one run at most. -/
theorem Repeats.unique (h : Repeats turn a s result) (h' : Repeats turn a s result') :
    result = result' := by
  induction h generalizing result' with
  | fails hturn =>
    cases h' with
    | fails hturn' =>
      cases hturn.symm.trans hturn'
      rfl
    | last hturn' | more hturn' => cases hturn.symm.trans hturn'
  | last hturn =>
    cases h' with
    | last hturn' =>
      cases hturn.symm.trans hturn'
      rfl
    | fails hturn' | more hturn' => cases hturn.symm.trans hturn'
  | more hturn hrest ih => exact ih (h'.of_more hturn)

/-- A bound of more turns than the measure allows is not reached. -/
theorem Unrolls.repeats (hloop : Unrolls turn loop) (hturn : Lowers measure turn) {bound : Nat}
    (hbound : measure s < bound) : Repeats turn a s (loop bound a s) := by
  induction bound generalizing a s with
  | zero => cases hbound
  | succ bound ih =>
    rw [hloop]
    show Repeats turn a s (turn a s >>= fun t => goOn (loop bound) t.1 t.2)
    match hs : turn a s with
    | .error e => exact .fails hs
    | .ok (.done a', s') => exact .last hs
    | .ok (.yield a', s') =>
      -- the bound falls by one with each turn, the measure by one at least
      have hlt := hturn hs
      exact .more hs (ih (by omega))

/-- A loop that may take one turn more than the measure allows is the loop without a bound, which
ends wherever it begins. -/
theorem Unrolls.repeats_iff (hloop : Unrolls turn loop) (hturn : Lowers measure turn) :
    Repeats turn a s result ↔ loop (measure s + 1) a s = result := by
  have hruns : Repeats turn a s (loop (measure s + 1) a s) :=
    hloop.repeats hturn (Nat.lt_succ_self _)
  constructor
  · exact hruns.unique
  · rintro rfl
    exact hruns

end

/-! ## Readers that refuse -/

/-- Whether two results are the same, unless the first one is a refusal. -/
def SameUnless {α : Type} (refusal : Error → Prop) (x x' : Except Error α) : Prop :=
  x = x' ∨ ∃ e, refusal e ∧ x = .error e

/-- Whether two readers do the same wherever they begin, unless the first one refuses to. -/
def SameReads {σ α : Type} (refusal : Error → Prop) (d d' : StateT σ (Except Error) α) : Prop :=
  ∀ s, SameUnless refusal (d s) (d' s)

section

variable {σ α β : Type} {refusal : Error → Prop}

theorem SameUnless.refl (x : Except Error α) : SameUnless refusal x x :=
  .inl rfl

/-- Only the steps up to the refusal have to be compared. -/
theorem SameUnless.bind {x x' : Except Error α} {f f' : α → Except Error β}
    (h : SameUnless refusal x x') (hf : ∀ a, SameUnless refusal (f a) (f' a)) :
    SameUnless refusal (x >>= f) (x' >>= f') := by
  rcases h with rfl | ⟨e, he, rfl⟩
  · cases x with
    | error e => exact .refl _
    | ok a => exact hf a
  · exact .inr ⟨e, he, rfl⟩

variable {d d' : StateT σ (Except Error) α} {f f' : α → StateT σ (Except Error) β}

theorem SameReads.refl (d : StateT σ (Except Error) α) : SameReads refusal d d :=
  fun _ => .refl _

theorem SameReads.bind (h : SameReads refusal d d') (hf : ∀ a, SameReads refusal (f a) (f' a)) :
    SameReads refusal (d >>= f) (d' >>= f') :=
  fun s => (h s).bind fun (a, s') => hf a s'

theorem SameReads.map (h : SameReads refusal d d') (g : α → β) :
    SameReads refusal (g <$> d) (g <$> d') :=
  h.bind fun a => .refl (pure (g a))

/-- Loops whose turns are the same up to refusals are so, too. -/
theorem Repeats.sameUnless {turn turn' : α → StateT σ (Except Error) (ForInStep α)} {a : α} {s : σ}
    {result result' : Except Error (α × σ)} (h : ∀ a, SameReads refusal (turn a) (turn' a))
    (hruns : Repeats turn a s result) (hruns' : Repeats turn' a s result') :
    SameUnless refusal result result' := by
  induction hruns with
  | fails hturn =>
    rcases h _ _ with hsame | ⟨e, he, hrefused⟩
    · exact .inl ((Repeats.fails (hsame.symm.trans hturn)).unique hruns')
    · cases hturn.symm.trans hrefused
      exact .inr ⟨_, he, rfl⟩
  | last hturn =>
    rcases h _ _ with hsame | ⟨e, he, hrefused⟩
    · exact .inl ((Repeats.last (hsame.symm.trans hturn)).unique hruns')
    · cases hturn.symm.trans hrefused
  | more hturn hrest ih =>
    rcases h _ _ with hsame | ⟨e, he, hrefused⟩
    · exact ih (hruns'.of_more (hsame.symm.trans hturn))
    · cases hturn.symm.trans hrefused

end

end UnrealPackage
