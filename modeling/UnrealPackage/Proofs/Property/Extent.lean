import UnrealPackage.Property.Decode
import UnrealPackage.Proofs.Binary.CompactInt
/-!
# How far a property list reaches

The payload of a record is read apart, so a property list takes no more than its records, and what
stands behind it does not matter (`framed_readProperties`). A list is read with a bound on the
number of its records that depends on the length of the whole input; as every record takes a byte at
least, any bound from the length of the list on will do (`reads_readRecords`).
-/

namespace UnrealPackage

namespace Decode

theorem framed_structName (t : Tables) (tag : PropertyTag) : Framed (structName t tag) := by
  unfold structName
  split
  · exact framed_compact.bind fun _ => (Framed.lift _).map _
  · exact .pure _

theorem framed_payloadSize (sizeCode : Nat) : Framed (payloadSize sizeCode) := by
  unfold payloadSize
  split
  · exact .pure _
  · exact .ite (framed_u8.map _) (.ite (framed_u16.map _) (framed_i32.map _))

theorem framed_recordSlot (tag : PropertyTag) (flag : Bool) : Framed (recordSlot tag flag) :=
  .ite (framed_compact.map _) (.pure _)

/-- Records are framed. -/
theorem framed_propertyRecord (t : Tables) : Framed (propertyRecord t) := by
  refine framed_compact.bind fun index => (Framed.lift _).bind fun name => ?_
  split
  · exact .pure _
  · exact framed_u8.bind fun info => (framed_structName t _).bind fun _ =>
      (framed_payloadSize _).bind fun size => (framed_recordSlot _ _).bind fun _ =>
        (framed_bytes size).bind fun _ => .pure _

/-- A record takes a byte at least. -/
theorem ne_nil_of_reads_propertyRecord {t : Tables} {front : List UInt8}
    {record? : Option PropertyRecord} (h : Reads (propertyRecord t) front record?) :
    front ≠ [] :=
  h.ne_nil rfl

end Decode

open Decode

namespace PropertyReaders

variable {ctx : PropertyContext} {below : PropertyReaders} {scope : String}

/-- The bound on the number of records does not matter as long as there is one for each byte that
is taken. -/
theorem reads_readRecords {bound : Nat} {done properties : List Property} {input rest : List UInt8}
    (h : readRecords ctx below scope bound done input = .ok (properties, rest)) :
    ∃ front, input = front ++ rest ∧ ∀ bound', front.length ≤ bound' →
      Reads (readRecords ctx below scope bound' done) front properties := by
  induction bound generalizing done input with
  | zero => cases h
  | succ bound ih =>
    obtain ⟨record?, middle, hrecord, h⟩ := bind_eq_ok.1 h
    obtain ⟨front, rfl, hreads⟩ := framed_propertyRecord _ hrecord
    have hpos := List.length_pos_iff.2 (ne_nil_of_reads_propertyRecord hreads)
    cases record? with
    | none =>
      obtain ⟨rfl, rfl⟩ := pure_eq_ok.1 h
      refine ⟨front, rfl, fun bound' hle => ?_⟩
      obtain ⟨bound', rfl⟩ := Nat.exists_eq_succ_of_ne_zero (n := bound') (by omega)
      rw [readRecords]
      exact (hreads.bind (.pure done)).congr (List.append_nil front)
    | some record =>
      obtain ⟨done', hstore, h⟩ := stateT_lift_bind_eq_ok.1 h
      obtain ⟨more, rfl, hrest⟩ := ih h
      refine ⟨front ++ more, (List.append_assoc _ _ _).symm, fun bound' hle => ?_⟩
      rw [List.length_append] at hle
      obtain ⟨bound', rfl⟩ := Nat.exists_eq_succ_of_ne_zero (n := bound') (by omega)
      rw [readRecords]
      exact hreads.bind ((Reads.lift hstore).bind (hrest bound' (by omega)))

end PropertyReaders

/-- Property lists are framed. -/
theorem framed_readProperties (ctx : PropertyContext) (scope : String) :
    Framed (readProperties ctx scope) := by
  intro input properties rest h
  obtain ⟨_, _, hget, h⟩ := bind_eq_ok.1 h
  cases hget
  obtain ⟨front, rfl, hreads⟩ := PropertyReaders.reads_readRecords h
  refine ⟨front, rfl, fun rest => bind_eq_ok.2 ⟨_, _, rfl, hreads _ ?_ rest⟩⟩
  rw [List.length_append]
  omega

end UnrealPackage
