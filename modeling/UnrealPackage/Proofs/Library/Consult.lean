import UnrealPackage.Property.Decode
import UnrealPackage.Proofs.Binary.Reads
/-!
# Readers that consult a schema

What is read against a schema asks it for the fields of one struct after the other. `Consults` says
so of a reader, and how often it asks: each question is paid from a budget, and `cost` tells what an
answer has to leave of it. A decoder pays with the bytes that it takes (`Consulting`).

A schema may be given up because a definition needs itself. `Below low high` says that `low` is the
same answer as `high` unless it was given up; readers that consult are monotone for it
(`Consults.monotone`).
-/

namespace UnrealPackage

variable {α β : Type}

/-! ## Answers that were given up -/

/-- Whether there is no answer because a definition needs itself. -/
def Circular (answer : Except Error α) : Prop :=
  ∃ name, answer = .error (.circularDefinition name)

/-- Whether an answer is the same as another one, unless it was given up. -/
def Below (low high : Except Error α) : Prop :=
  ¬Circular low → low = high

/-- What comes after a failure is not reached. -/
theorem except_error_bind (e : Error) (f : α → Except Error β) :
    ((.error e : Except Error α) >>= f) = .error e :=
  rfl

section

variable {x y z : Except Error α} {f g : α → Except Error β}

theorem Circular.bind (h : Circular x) (f : α → Except Error β) : Circular (x >>= f) := by
  obtain ⟨name, rfl⟩ := h
  exact ⟨name, rfl⟩

theorem not_circular_ok {a : α} : ¬Circular (.ok a : Except Error α) :=
  nofun

theorem Below.refl (x : Except Error α) : Below x x :=
  fun _ => rfl

theorem Circular.below (h : Circular x) (y : Except Error α) : Below x y :=
  fun hx => absurd h hx

theorem Below.trans (h : Below x y) (h' : Below y z) : Below x z := by
  intro hx
  obtain rfl := h hx
  exact h' hx

/-- What is below an answer that was given up was given up. -/
theorem Below.circular (h : Below x y) (hy : Circular y) : Circular x := by
  exact Classical.byContradiction fun hx => hx (h hx ▸ hy)

theorem Below.eq_ok {a : α} (h : Below x y) (hx : x = .ok a) : y = .ok a := by
  subst hx
  exact (h not_circular_ok).symm

/-- Answers in the order of each other stay so when the next step is. -/
theorem Below.bind (h : Below x y) (hfg : ∀ a, y = .ok a → Below (f a) (g a)) :
    Below (x >>= f) (y >>= g) := by
  intro hcircular
  obtain rfl := h fun hx => hcircular (hx.bind f)
  cases x with
  | error e => rfl
  | ok a => exact hfg a rfl hcircular

end

/-! ## Readers over a schema -/

/-- Whether what is read depends on the schema by the fields that it is asked for, at most `budget`
times and so that `cost` of the answer is left. -/
inductive Consults (cost : α → Nat) : Nat → (SchemaResolver → Except Error α) → Prop
  | known {budget : Nat} {answer : Except Error α} :
    (∀ a, answer = .ok a → cost a ≤ budget) → Consults cost budget fun _ => answer
  | ask {budget : Nat} {name : String}
    {next : List FieldTemplate → SchemaResolver → Except Error α} :
    (∀ fields, Consults cost budget (next fields)) →
    Consults cost (budget + 1) fun schema => schema name >>= fun fields => next fields schema

namespace Consults

variable {cost : α → Nat} {cost' : β → Nat} {budget budget' : Nat}
  {read : SchemaResolver → Except Error α} {next : α → SchemaResolver → Except Error β}

/-- A failure asks for nothing. -/
theorem failed {e : Error} : Consults cost budget fun _ => .error e :=
  .known nofun

/-- What is read within a budget is read within a larger one. -/
theorem mono (h : Consults cost budget read) (hle : budget ≤ budget') :
    Consults cost budget' read := by
  induction h generalizing budget' with
  | known hcost => exact .known fun a ha => Nat.le_trans (hcost a ha) hle
  | ask _ ih =>
    obtain ⟨budget', rfl⟩ := Nat.exists_eq_succ_of_ne_zero (n := budget') (by omega)
    exact .ask fun fields => ih fields (Nat.le_of_succ_le_succ hle)

/-- A step that does not depend on the schema costs nothing. -/
theorem after {known : Except Error β} {more : β → SchemaResolver → Except Error α}
    (h : ∀ b, Consults cost budget (more b)) :
    Consults cost budget fun schema => known >>= fun b => more b schema := by
  cases known with
  | error e => exact .failed
  | ok b => exact h b

/-- What is left of a budget may be spent by the next step. -/
theorem bind (h : Consults cost budget read) (hnext : ∀ a, Consults cost' (cost a) (next a)) :
    Consults cost' budget fun schema => read schema >>= fun a => next a schema := by
  induction h with
  | @known budget answer hcost =>
    cases answer with
    | error e => exact .failed
    | ok a => exact (hnext a).mono (hcost a rfl)
  | ask _ ih =>
    simp only [bind_assoc]
    exact .ask ih

/-- What is not spent is left. -/
theorem shift (h : Consults cost budget read) (more : Nat) :
    Consults (cost · + more) (budget + more) read := by
  induction h with
  | known hcost => exact .known fun a ha => Nat.add_le_add_right (hcost a ha) more
  | @ask budget _ _ _ ih =>
    rw [Nat.add_right_comm]
    exact .ask ih

theorem monotone (h : Consults cost budget read) {low high : SchemaResolver}
    (hschema : ∀ name, Below (low name) (high name)) : Below (read low) (read high) := by
  induction h with
  | known _ => exact .refl _
  | ask _ ih => exact (hschema _).bind fun fields _ => ih fields

end Consults

/-! ## Decoders over a schema -/

/-- Whether a decoder takes a byte at least for each question to the schema. -/
def Consulting (d : SchemaResolver → Decode α) : Prop :=
  ∀ input, Consults (fun read => read.2.length) input.length fun schema => d schema input

namespace Consulting

variable {d : SchemaResolver → Decode α} {f : α → SchemaResolver → Decode β}

/-- A decoder that leaves a part of its input needs no schema. -/
theorem of_leaves {d : Decode α} (h : d.Leaves) : Consulting fun _ => d :=
  fun _ => .known fun _ hread => (h hread).length_le

theorem of_framed {d : Decode α} (h : d.Framed) : Consulting fun _ => d :=
  of_leaves h.leaves

theorem bind (h : Consulting d) (hf : ∀ a, Consulting (f a)) :
    Consulting fun schema => d schema >>= fun a => f a schema :=
  fun input => (h input).bind fun read => hf read.1 read.2

theorem map (h : Consulting d) (g : α → β) : Consulting fun schema => g <$> d schema :=
  h.bind fun a => of_framed (.pure (g a))

theorem times (h : Consulting d) (n : Nat) : Consulting fun schema => (d schema).times n := by
  induction n with
  | zero => exact of_framed (.pure [])
  | succ n ih => exact h.bind fun _ => ih.bind fun _ => of_framed (.pure _)

end Consulting

end UnrealPackage
