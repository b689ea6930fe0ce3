import Mathlib.Data.Set.Card
import UnrealPackage.Proofs.Library.Bounds
import UnrealPackage.Proofs.Property.Consult
/-!
# How deep definitions go

Fields of structs are found by reading definitions up to some depth. At a greater depth the same is
found or more (`Library.fieldsWithin_below`), and as long as more is found, the exports that can be
read become more. So at the depth of all exports together nothing more is to be found
(`Library.settled_exportCount`): what has no answer there has none at any depth
(`Library.fieldsWithin_below_fields`), because it needs itself.
-/

namespace UnrealPackage

/-- An export is read the same with a schema that tells more, unless it could not be read. -/
theorem Located.decode_below {low high : SchemaResolver}
    (h : ∀ name, Below (low name) (high name)) (x : Located) :
    Below (x.decode low) (x.decode high) := by
  cases hdata : x.payload with
  | ok data => exact (consults_decode hdata).monotone h
  | error e =>
    rw [decode, decode, hdata, except_error_bind, except_error_bind]
    exact .refl _

namespace Library

variable {l : Library} {x : Located} {depth depth' : Nat}

/-! ## Deeper is more -/

theorem fieldsWithin_below_succ (depth : Nat) (fullName : String) :
    Below (l.fieldsWithin depth fullName) (l.fieldsWithin (depth + 1) fullName) := by
  induction depth generalizing fullName with
  | zero => exact Circular.below ⟨fullName, rfl⟩ _
  | succ depth ih => exact flatten_below (fun x _ => x.decode_below ih) fullName

theorem fieldsWithin_below (h : depth ≤ depth') (fullName : String) :
    Below (l.fieldsWithin depth fullName) (l.fieldsWithin depth' fullName) := by
  induction h with
  | refl => exact .refl _
  | step _ ih => exact ih.trans (fieldsWithin_below_succ _ fullName)

/-! ## Deep enough -/

/-- Whether no more exports can be read if definitions are read one level deeper. -/
def Settled (l : Library) (depth : Nat) : Prop :=
  ∀ x, l.Found x →
    Below (x.decode (l.fieldsWithin (depth + 1))) (x.decode (l.fieldsWithin depth))

theorem Settled.below (h : l.Settled depth) (fullName : String) :
    Below (l.fieldsWithin (depth + 2) fullName) (l.fieldsWithin (depth + 1) fullName) :=
  flatten_below h fullName

theorem Settled.succ (h : l.Settled depth) : l.Settled (depth + 1) :=
  fun x _ => x.decode_below h.below

/-- The exports that can be read, or cannot for another reason than that they need themselves, by
reading definitions at most `depth` deep. -/
def answered (l : Library) (depth : Nat) : Set Located :=
  { x | l.Holds x ∧ ¬Circular (x.decode (l.fieldsWithin depth)) }

/-- Only an export that is there can need itself to be read. -/
theorem index_lt_of_circular {schema : SchemaResolver} (h : Circular (x.decode schema)) :
    x.index < x.package.tables.exports.length := by
  by_contra hindex
  obtain ⟨name, h⟩ := h
  have hentry : x.package.tables.exportAt x.index =
      .error (.outOfRange .exports x.index x.package.tables.exports.length) := by
    rw [Tables.exportAt, List.getElem?_eq_none (Nat.not_lt.1 hindex)]
    rfl
  have hpayload : x.payload =
      .error (.outOfRange .exports x.index x.package.tables.exports.length) := by
    rw [Located.payload, Package.exportData, hentry]
    rfl
  rw [Located.decode, hpayload] at h
  cases h

theorem answered_subset_succ (depth : Nat) : l.answered depth ⊆ l.answered (depth + 1) := by
  rintro x ⟨hx, hcircular⟩
  have hsame := x.decode_below (fieldsWithin_below_succ (l := l) depth) hcircular
  exact ⟨hx, hsame ▸ hcircular⟩

/-- No more can be read one level deeper exactly if the same exports are answered there. -/
theorem settled_iff : l.Settled depth ↔ l.answered depth = l.answered (depth + 1) := by
  constructor
  · intro h
    refine (answered_subset_succ depth).antisymm ?_
    rintro x ⟨hx, hcircular⟩
    have hsame := h x hx.found hcircular
    exact ⟨hx, hsame ▸ hcircular⟩
  · intro h x hx hdeeper
    by_cases hcircular : Circular (x.decode (l.fieldsWithin depth))
    · have hmem : x ∈ l.answered (depth + 1) := ⟨⟨hx, index_lt_of_circular hcircular⟩, hdeeper⟩
      rw [← h] at hmem
      exact absurd hcircular hmem.2
    · exact (x.decode_below (fieldsWithin_below_succ depth) hcircular).symm

section

variable (hcount : l.source.Counted)

include hcount

theorem finite_holds : {x | l.Holds x}.Finite := by
  obtain ⟨packages, hall, -⟩ := hcount
  refine (List.finite_toSet (exportsOf packages)).subset ?_
  rintro x ⟨⟨name, hfound⟩, hindex⟩
  exact mem_exportsOf (hall name _ hfound) hindex

theorem finite_answered (depth : Nat) : (l.answered depth).Finite :=
  (finite_holds hcount).subset fun _ hx => hx.1

theorem ncard_answered_le (depth : Nat) : (l.answered depth).ncard ≤ l.source.exportCount := by
  have hfinite := finite_answered hcount depth
  rw [Set.ncard_eq_toFinset_card _ hfinite, ← Finset.length_toList]
  refine length_le_exportCount hcount (Finset.nodup_toList _) fun x hx => ?_
  exact (hfinite.mem_toFinset.1 (Finset.mem_toList.1 hx)).1

/-- No more can be read one level deeper exactly if as many exports are answered there. -/
theorem settled_iff_ncard :
    l.Settled depth ↔ (l.answered depth).ncard = (l.answered (depth + 1)).ncard := by
  rw [settled_iff]
  refine ⟨congrArg Set.ncard, fun h => ?_⟩
  exact Set.eq_of_subset_of_ncard_le (answered_subset_succ depth) h.ge
    (finite_answered hcount (depth + 1))

/-- Reading deeper than there are exports finds nothing more: the exports that can be read become
more with the depth until they stay the same, and they are no more than all exports. -/
theorem settled_exportCount : l.Settled l.source.exportCount := by
  have hmono : Monotone fun depth => (l.answered depth).ncard :=
    monotone_nat_of_le_succ fun depth =>
      Set.ncard_le_ncard (answered_subset_succ depth) (finite_answered hcount _)
  refine (settled_iff_ncard hcount).2 (Nat.stabilises_of_monotone hmono (ncard_answered_le hcount)
    (fun depth h => ?_) (Nat.le_succ _)).symm
  exact (settled_iff_ncard hcount).1 ((settled_iff_ncard hcount).2 h).succ

/-- The fields of a struct that are found at any depth are its fields. -/
theorem fieldsWithin_below_fields (depth : Nat) (fullName : String) :
    Below (l.fieldsWithin depth fullName) (l.fields fullName) := by
  have hsettled : ∀ more, l.Settled (l.source.exportCount + more) := by
    intro more
    induction more with
    | zero => exact settled_exportCount hcount
    | succ more ih => exact ih.succ
  have hdeeper : ∀ more,
      Below (l.fieldsWithin (l.source.exportCount + more + 1) fullName) (l.fields fullName) := by
    intro more
    induction more with
    | zero => exact .refl _
    | succ more ih => exact ((hsettled more).below fullName).trans ih
  exact (fieldsWithin_below (by omega) fullName).trans (hdeeper depth)

end

end Library

end UnrealPackage
