import UnrealPackage.Proofs.Library.Bounds
/-!
# Reading while asking

What needs the fields of structs is read against a table of those that were asked for, and begun
anew whenever one is missing. With room for all that it asks for, this is bounded as if it were read
against a schema (`Session.within_reading`).

The reader is followed along what it asks for. Where a table already answers the next question, the
reader goes on as one that asks no more for it, as long as tables only grow (`Extends`).
-/

namespace UnrealPackage.Session

variable {α : Type} {ask : String → Session (List FieldTemplate)}
  {read read' : SchemaResolver → Except Error α} {room : Nat} {name : String}
  {asked : List (String × Except Error (List FieldTemplate))}

/-! ## Tables of fields -/

/-- Whether a schema tells what a table does. -/
def Extends (schema : SchemaResolver) (asked : List (String × Except Error (List FieldTemplate))) :
    Prop :=
  ∀ name found, asked.lookup name = some found → schema name = found

theorem extends_schemaOf (asked : List (String × Except Error (List FieldTemplate))) :
    Extends (schemaOf asked) asked := by
  intro name found h
  rw [schemaOf, h]
  rfl

theorem schemaOf_missing (h : asked.lookup name = none) :
    schemaOf asked name = .error (.circularDefinition name) := by
  rw [schemaOf, h]
  rfl

/-- If a schema has what a table tells, it has what the rest of the table tells. -/
theorem Extends.of_cons {schema : SchemaResolver} {found : Except Error (List FieldTemplate)}
    (h : Extends schema ((name, found) :: asked)) (hname : asked.lookup name = none) :
    Extends schema asked := by
  intro name' found' hlookup
  refine h name' found' ?_
  have hne : name' ≠ name := by
    rintro rfl
    rw [hname] at hlookup
    cases hlookup
  rw [List.lookup_cons, beq_false_of_ne hne]
  exact hlookup

/-- Whether what a table tells lies between two schemas. -/
def Between (low high : SchemaResolver)
    (asked : List (String × Except Error (List FieldTemplate))) : Prop :=
  ∀ name found, asked.lookup name = some found → Below (low name) found ∧ Below found (high name)

theorem between_nil (low high : SchemaResolver) : Between low high [] :=
  nofun

/-- A table stays between two schemas with one more name whose fields are between theirs. -/
theorem Between.cons {low high : SchemaResolver} {found : Except Error (List FieldTemplate)}
    (h : Between low high asked) (hlow : Below (low name) found)
    (hhigh : Below found (high name)) : Between low high ((name, found) :: asked) := by
  intro name' found' hlookup
  rw [List.lookup_cons] at hlookup
  split at hlookup
  · next hsame =>
    cases eq_of_beq hsame
    cases hlookup
    exact ⟨hlow, hhigh⟩
  · exact h name' found' hlookup

/-- What a table tells lies below the larger of the schemas that it is between. -/
theorem Between.below {low high : SchemaResolver} (h : Between low high asked) (name : String) :
    Below (schemaOf asked name) (high name) := by
  cases hlookup : asked.lookup name with
  | some found =>
    rw [extends_schemaOf asked name found hlookup]
    exact (h name found hlookup).2
  | none =>
    rw [schemaOf_missing hlookup]
    exact Circular.below ⟨name, rfl⟩ _

/-! ## One attempt -/

/-- What needs nothing more than the table has is read at once. -/
theorem reading_of_not_circular (h : ¬Circular (read (schemaOf asked))) :
    reading ask read room asked = liftM (read (schemaOf asked)) := by
  cases room with
  | zero => rfl
  | succ room =>
    rw [reading]
    split
    · next name hread => exact absurd ⟨name, hread⟩ h
    · rfl

/-- A name that the table has and that is needed all the same needs itself. -/
theorem reading_of_asked {found : Except Error (List FieldTemplate)}
    (h : read (schemaOf asked) = .error (.circularDefinition name))
    (hname : asked.lookup name = some found) :
    reading ask read (room + 1) asked = Error.raise (.circularDefinition name) := by
  rw [reading, h]
  dsimp only
  rw [hname]
  rfl

/-- A name that the table does not have is asked for, and the reading begins again with what was
found. -/
theorem reading_of_missing (h : read (schemaOf asked) = .error (.circularDefinition name))
    (hname : asked.lookup name = none) :
    reading ask read (room + 1) asked =
      attempt (ask name) >>= fun found => reading ask read room ((name, found) :: asked) := by
  rw [reading, h]
  dsimp only
  rw [hname]
  rfl

/-! ## All attempts -/

section

variable {I : Memo → Prop} {low high : SchemaResolver} {cost : α → Nat} {budget : Nat}

/-- However often it is begun anew, no more is read than against the schema above. -/
theorem within_reading_of_circular (hask : ∀ name, Within I (ask name) (low name) (high name))
    (hread : Consults cost budget read) (hasked : Between low high asked)
    {answer : Except Error α} (hanswer : Circular answer) :
    Within I (reading ask read room asked) answer (read high) := by
  induction room generalizing asked with
  | zero => exact (Within.lift (hread.monotone hasked.below)).mono (hanswer.below _) (.refl _)
  | succ room ih =>
    by_cases hcircular : Circular (read (schemaOf asked))
    · obtain ⟨name, hname⟩ := hcircular
      cases hlookup : asked.lookup name with
      | some found =>
        rw [reading_of_asked hname hlookup]
        exact (Within.raise _).mono (hanswer.below _) (Circular.below ⟨name, rfl⟩ _)
      | none =>
        rw [reading_of_missing hname hlookup]
        exact (hask name).bind_attempt fun found hlow hhigh => ih (hasked.cons hlow hhigh)
    · rw [reading_of_not_circular hcircular]
      exact (Within.lift (hread.monotone hasked.below)).mono (hanswer.below _) (.refl _)

/-- What is read in the same way against all larger tables is not begun anew. -/
theorem within_reading_of_known {answer : Except Error α} (hanswer : ¬Circular answer)
    (hsame : ∀ schema, Extends schema asked → read schema = answer) :
    Within I (reading ask read room asked) answer answer := by
  have hnow := hsame _ (extends_schemaOf asked)
  rw [reading_of_not_circular (hnow ▸ hanswer), hnow]
  exact .lift (.refl _)

/-- With room for what it asks for, a reader is answered as against the schema below, if it is not
given up there. The induction is on what it asks for, beginning with what was not asked so far. -/
theorem within_reading_of_not_circular
    (hask : ∀ name, Within I (ask name) (low name) (high name))
    (hread : Consults cost budget read') (hroom : budget ≤ room)
    (hasked : Between low high asked)
    (hsame : ∀ schema, Extends schema asked → read schema = read' schema)
    (hlow : ¬Circular (read' low)) :
    Within I (reading ask read room asked) (read' low) (read' low) := by
  induction hread generalizing room asked with
  | known _ => exact within_reading_of_known hlow hsame
  | @ask budget name next hnext ih =>
    dsimp only at hsame hlow ⊢
    have hname : ¬Circular (low name) := fun h => hlow (h.bind _)
    -- once the name was asked for, the table tells what the schema below does
    have hknown : ∀ room asked, budget ≤ room → Between low high asked →
        (∀ schema, Extends schema asked →
          read schema = schema name >>= fun fields => next fields schema) →
        asked.lookup name = some (low name) →
        Within I (reading ask read room asked) (low name >>= fun fields => next fields low)
          (low name >>= fun fields => next fields low) := by
      intro room asked hroom hasked hsame hlookup
      have hstep : ∀ schema, Extends schema asked →
          read schema = low name >>= fun fields => next fields schema := by
        intro schema hschema
        rw [hsame schema hschema, hschema name _ hlookup]
      cases hfields : low name with
      | ok fields =>
        rw [hfields] at hlow hstep
        exact ih fields hroom hasked hstep hlow
      | error e =>
        rw [hfields] at hlow hstep
        exact within_reading_of_known hlow hstep
    cases hlookup : asked.lookup name with
    | some found =>
      rw [← (hasked name found hlookup).1 hname] at hlookup
      exact hknown room asked (by omega) hasked hsame hlookup
    | none =>
      obtain ⟨room, rfl⟩ := Nat.exists_eq_succ_of_ne_zero (n := room) (by omega)
      have hanswer : read (schemaOf asked) = .error (.circularDefinition name) := by
        rw [hsame _ (extends_schemaOf asked), schemaOf_missing hlookup]
        rfl
      rw [reading_of_missing hanswer hlookup]
      refine (hask name).bind_attempt fun found hbelow habove => ?_
      obtain rfl := hbelow hname
      refine hknown room _ (Nat.le_of_succ_le_succ hroom) (hasked.cons hbelow habove)
        (fun schema hschema => hsame schema (hschema.of_cons hlookup)) ?_
      rw [List.lookup_cons, beq_self_eq_true]

/-- What consults a schema is read as against the schemas that bound what is asked for. -/
theorem within_reading (hask : ∀ name, Within I (ask name) (low name) (high name))
    (hread : Consults cost budget read) (hroom : budget ≤ room)
    (hschema : ∀ name, Below (low name) (high name)) :
    Within I (reading ask read room []) (read low) (read high) := by
  by_cases hlow : Circular (read low)
  · exact within_reading_of_circular hask hread (between_nil low high) hlow
  · exact (within_reading_of_not_circular hask hread hroom (between_nil low high)
      (fun _ _ => rfl) hlow).mono (.refl _) (hread.monotone hschema)

end

end UnrealPackage.Session
