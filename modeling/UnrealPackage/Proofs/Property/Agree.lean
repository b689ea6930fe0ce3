import UnrealPackage.Proofs.Binary.Reads
import UnrealPackage.Proofs.Tables.Names
/-!
# Runs that agree

Two runs agree if both succeed with results that are related, or both fail with errors that differ
in nothing but how a property's name is spelled. For decoders what is left of the input has to be
the same as well. Agreement composes along `do` blocks, whatever relates the results of the steps.
-/

namespace UnrealPackage

/-- Whether two errors differ at most in how a property's name is spelled. -/
inductive Error.Respelled : Error → Error → Prop
  | refl (e : Error) : Respelled e e
  | property {name name' scope : String} (h : sameName name name' = true) :
    Respelled (.noTemplate name scope) (.noTemplate name' scope)

/-- Whether two results are both values that are related, or both errors of one kind. -/
inductive Agree {α β : Type} (R : α → β → Prop) : Except Error α → Except Error β → Prop
  | ok {a : α} {b : β} (h : R a b) : Agree R (.ok a) (.ok b)
  | error {e e' : Error} (h : e.Respelled e') : Agree R (.error e) (.error e')

namespace Agree

variable {α α' β β' : Type} {R : α → α' → Prop} {S : β → β' → Prop} {x : Except Error α}
  {x' : Except Error α'}

theorem refl (x : Except Error α) : Agree Eq x x := by
  cases x with
  | ok a => exact .ok rfl
  | error e => exact .error (.refl e)

theorem bind {f : α → Except Error β} {f' : α' → Except Error β'} (h : Agree R x x')
    (hf : ∀ a a', R a a' → Agree S (f a) (f' a')) : Agree S (x >>= f) (x' >>= f') := by
  cases h with
  | ok h => exact hf _ _ h
  | error h => exact .error h

/-- Another relation holds of the results that there are. -/
theorem imp {S : α → α' → Prop} (h : Agree R x x')
    (hS : ∀ a a', x = .ok a → x' = .ok a' → S a a') : Agree S x x' := by
  cases h with
  | ok h => exact .ok (hS _ _ rfl rfl)
  | error h => exact .error h

end Agree

namespace Decode

variable {α α' β β' : Type} {R : α → α' → Prop} {S : β → β' → Prop} {d : Decode α}
  {d' : Decode α'}

/-- Whether two decoders agree on every input, and leave the same of it. -/
def Agree (R : α → α' → Prop) (d : Decode α) (d' : Decode α') : Prop :=
  ∀ input, UnrealPackage.Agree (fun x x' => R x.1 x'.1 ∧ x.2 = x'.2) (d input) (d' input)

namespace Agree

theorem refl (d : Decode α) : Agree Eq d d := by
  intro input
  cases d input with
  | ok x => exact .ok ⟨rfl, rfl⟩
  | error e => exact .error (.refl e)

theorem pure {a : α} {a' : α'} (h : R a a') : Agree R (Pure.pure a) (Pure.pure a') :=
  fun _ => .ok ⟨h, rfl⟩

/-- Readers that agree go on agreeing if what follows does. -/
theorem bind {f : α → Decode β} {f' : α' → Decode β'} (h : Agree R d d')
    (hf : ∀ a a', R a a' → Agree S (f a) (f' a')) : Agree S (d >>= f) (d' >>= f') := by
  intro input
  refine (h input).bind ?_
  rintro ⟨a, rest⟩ ⟨a', rest'⟩ ⟨ha, hrest⟩
  cases hrest
  exact hf a a' ha rest

/-- The first step is the same in both. -/
theorem bind_left (d : Decode α) {f : α → Decode β} {f' : α → Decode β'}
    (hf : ∀ a, Agree S (f a) (f' a)) : Agree S (d >>= f) (d >>= f') := by
  refine (refl d).bind ?_
  rintro a a' rfl
  exact hf a

theorem map {g : α → β} {g' : α' → β'} (h : Agree R d d') (hg : ∀ a a', R a a' → S (g a) (g' a')) :
    Agree S (g <$> d) (g' <$> d') :=
  h.bind fun a a' ha => .pure (hg a a' ha)

/-- Answers that agree are given by readers that agree. -/
theorem lift {x : Except Error α} {x' : Except Error α'} (h : UnrealPackage.Agree R x x') :
    Agree R (liftM x : Decode α) (liftM x' : Decode α') := by
  intro input
  cases h with
  | ok h => exact .ok ⟨h, rfl⟩
  | error h => exact .error h

/-- Readers of one item that agree do so on any number of items. -/
theorem times {item item' : Decode α} (h : Agree Eq item item') (n : Nat) :
    Agree Eq (Decode.times item n) (Decode.times item' n) := by
  induction n with
  | zero => exact refl _
  | succ n ih =>
    refine h.bind ?_
    rintro a a' rfl
    refine ih.bind ?_
    rintro as as' rfl
    exact refl _

end Agree

end Decode

end UnrealPackage
