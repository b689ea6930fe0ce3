import UnrealPackage.Proofs.Property.Extent
/-!
# Records as bytes

A record of a property list is a row of parts, and which of them are there is told by the info byte.
`FramedRecord` is a record with the bytes of each part. Every record that is read is one
(`exists_framedRecord`), and is read as what its parts say whatever follows
(`FramedRecord.reads_record`). So a list of records can be spoken of without its bytes: reading it
is storing its records one after another (`list_flatMap`), and bytes that are read as a list are
records that can be stored and a name that ends them (`list_eq_ok_iff`).
-/

namespace UnrealPackage

open Decode

/-- A complete record of a property list: the bytes of its parts and what they say. -/
structure FramedRecord (t : Tables) where
  nameBytes : List UInt8
  nameIndex : NameIndex
  name : String
  info : UInt8
  /-- The bytes of the struct's name, none unless the record is one of a struct. -/
  structBytes : List UInt8
  structName : Option String
  sizeBytes : List UInt8
  /-- The bytes of the slot, none if it goes without saying. -/
  slotBytes : List UInt8
  slot : Int
  payload : List UInt8
  reads_name : Reads compact nameBytes nameIndex
  name_eq : t.name nameIndex = .ok name
  ne_none : sameName name noneName = false
  reads_struct : Reads (Decode.structName t (PropertyTag.ofCode info)) structBytes structName
  reads_size : Reads (Decode.payloadSize (info.toNat / 16 % 8)) sizeBytes payload.length
  reads_slot : Reads (Decode.recordSlot (PropertyTag.ofCode info) (decide (128 ≤ info.toNat)))
    slotBytes slot

/-- Whether the bytes are a name that ends a list. -/
def EndsList (t : Tables) (ending : List UInt8) : Prop :=
  ∃ index name, Reads compact ending index ∧ t.name index = .ok name ∧
    sameName name noneName = true

/-- What ends a list is read as no record. -/
theorem EndsList.reads {t : Tables} {ending : List UInt8} (h : EndsList t ending) :
    Reads (propertyRecord t) ending none := by
  obtain ⟨index, name, hindex, hname, hnone⟩ := h
  refine (hindex.bind ((Reads.lift hname).bind ?_)).congr (List.append_nil ending)
  rw [if_pos hnone]
  exact .pure none

theorem EndsList.ne_nil {t : Tables} {ending : List UInt8} (h : EndsList t ending) :
    ending ≠ [] :=
  ne_nil_of_reads_propertyRecord h.reads

/-- A list that is over has a name that ends it at the front of the input. -/
theorem exists_endsList {t : Tables} {input rest : List UInt8}
    (h : propertyRecord t input = .ok (none, rest)) :
    ∃ ending, EndsList t ending ∧ input = ending ++ rest := by
  obtain ⟨index, m₁, hindex, h⟩ := bind_eq_ok.1 h
  obtain ⟨name, hname, h⟩ := stateT_lift_bind_eq_ok.1 h
  split at h
  · next hnone =>
    obtain ⟨-, rfl⟩ := pure_eq_ok.1 h
    obtain ⟨ending, rfl, hreads⟩ := framed_compact hindex
    exact ⟨ending, ⟨index, name, hreads, hname, hnone⟩, rfl⟩
  · obtain ⟨info, m₂, -, h⟩ := bind_eq_ok.1 h
    obtain ⟨structName, m₃, -, h⟩ := bind_eq_ok.1 h
    obtain ⟨size, m₄, -, h⟩ := bind_eq_ok.1 h
    obtain ⟨slot, m₅, -, h⟩ := bind_eq_ok.1 h
    obtain ⟨payload, m₆, -, h⟩ := bind_eq_ok.1 h
    cases h

namespace FramedRecord

variable {t : Tables}

/-- The bytes of the record. -/
def bytes (f : FramedRecord t) : List UInt8 :=
  f.nameBytes ++ f.info :: (f.structBytes ++ (f.sizeBytes ++ (f.slotBytes ++ f.payload)))

/-- The record, its payload not yet interpreted. -/
def record (f : FramedRecord t) : PropertyRecord where
  name := f.name
  tag := PropertyTag.ofCode f.info
  flag := decide (128 ≤ f.info.toNat)
  structName := f.structName
  slot := f.slot
  payload := f.payload

/-- A record is read from its bytes, whatever follows. -/
theorem reads_record (f : FramedRecord t) : Reads (propertyRecord t) f.bytes (some f.record) := by
  refine f.reads_name.bind ((Reads.lift f.name_eq).bind ?_)
  rw [if_neg (by rw [f.ne_none]; exact Bool.false_ne_true)]
  refine (reads_u8 f.info).bind (f.reads_struct.bind (f.reads_size.bind ?_))
  exact f.reads_slot.bind ((reads_bytes f.payload).bindPure _)

theorem bytes_ne_nil (f : FramedRecord t) : f.bytes ≠ [] :=
  ne_nil_of_reads_propertyRecord f.reads_record

/-- Every record that is read has its parts at the front of the input. -/
theorem exists_framedRecord {input rest : List UInt8} {r : PropertyRecord}
    (h : propertyRecord t input = .ok (some r, rest)) :
    ∃ f : FramedRecord t, f.record = r ∧ input = f.bytes ++ rest := by
  obtain ⟨index, m₁, hindex, h⟩ := bind_eq_ok.1 h
  obtain ⟨name, hname, h⟩ := stateT_lift_bind_eq_ok.1 h
  split at h
  · cases h
  next hnone =>
  obtain ⟨info, m₂, hinfo, h⟩ := bind_eq_ok.1 h
  obtain ⟨structName, m₃, hstruct, h⟩ := bind_eq_ok.1 h
  obtain ⟨size, m₄, hsize, h⟩ := bind_eq_ok.1 h
  obtain ⟨slot, m₅, hslot, h⟩ := bind_eq_ok.1 h
  obtain ⟨payload, m₆, hpayload, h⟩ := bind_eq_ok.1 h
  obtain ⟨hrecord, rfl⟩ := pure_eq_ok.1 h
  cases hrecord
  obtain ⟨nameBytes, rfl, reads_name⟩ := framed_compact hindex
  obtain rfl := u8_eq_ok.1 hinfo
  obtain ⟨structBytes, rfl, reads_struct⟩ := framed_structName t _ hstruct
  obtain ⟨sizeBytes, rfl, reads_size⟩ := framed_payloadSize _ hsize
  obtain ⟨slotBytes, rfl, reads_slot⟩ := framed_recordSlot _ _ hslot
  obtain ⟨rfl, rfl⟩ := bytes_eq_ok.1 hpayload
  have hnone : sameName name noneName = false := Bool.eq_false_iff.2 hnone
  refine ⟨⟨nameBytes, index, name, info, structBytes, structName, sizeBytes, slotBytes, slot,
    payload, reads_name, hname, hnone, reads_struct, reads_size, reads_slot⟩, rfl, ?_⟩
  simp [bytes]

end FramedRecord

namespace PropertyReaders

variable {ctx : PropertyContext} {below : PropertyReaders} {scope : String} {ending : List UInt8}

/-- Reading records in a row is storing one after another. -/
theorem readRecords_flatMap (rs : List (FramedRecord ctx.tables))
    (hending : EndsList ctx.tables ending) (rest : List UInt8) {bound : Nat}
    (hbound : rs.length < bound) (done : List Property) :
    below.readRecords ctx scope bound done (rs.flatMap FramedRecord.bytes ++ (ending ++ rest)) =
      (rs.map FramedRecord.record).foldlM (below.store ctx scope) done >>= fun ps =>
        pure (ps, rest) := by
  induction rs generalizing bound done with
  | nil =>
    obtain ⟨bound, rfl⟩ : ∃ b, bound = b + 1 := ⟨bound - 1, by simp at hbound; omega⟩
    show (propertyRecord ctx.tables (ending ++ rest) >>= fun q => _) = _
    rw [hending.reads]
    rfl
  | cons r rs ih =>
    rw [List.length_cons] at hbound
    obtain ⟨bound, rfl⟩ : ∃ b, bound = b + 1 := ⟨bound - 1, by omega⟩
    rw [List.flatMap_cons, List.append_assoc, List.map_cons, List.foldlM_cons, bind_assoc]
    show (propertyRecord ctx.tables _ >>= fun q => _) = _
    rw [r.reads_record, except_ok_bind]
    show (liftM (below.store ctx scope done r.record) >>= fun done => _ : Decode _) _ = _
    cases below.store ctx scope done r.record with
    | error e => rfl
    | ok done' => exact ih (by omega) done'

/-- A list is read by storing its records one after another, whatever follows it. -/
theorem list_flatMap (levels : Nat) (rs : List (FramedRecord ctx.tables))
    (hending : EndsList ctx.tables ending) (rest : List UInt8) :
    (ofLevels ctx (levels + 1)).list scope (rs.flatMap FramedRecord.bytes ++ (ending ++ rest)) =
      (rs.map FramedRecord.record).foldlM ((ofLevels ctx levels).store ctx scope) [] >>= fun ps =>
        pure (ps, rest) := by
  refine readRecords_flatMap rs hending rest ?_ []
  have hlength : rs.length ≤ (rs.flatMap FramedRecord.bytes).length := by
    induction rs with
    | nil => exact Nat.le_refl _
    | cons r rs ih =>
      have hpos := List.length_pos_iff.2 r.bytes_ne_nil
      rw [List.length_cons, List.flatMap_cons, List.length_append]
      omega
  rw [List.length_append]
  omega

/-- The records that the loop reads stand in a row, and a name that ends lists behind them. -/
theorem exists_framed_of_readRecords {bound : Nat} {done ps : List Property}
    {input rest : List UInt8}
    (h : below.readRecords ctx scope bound done input = .ok (ps, rest)) :
    ∃ (rs : List (FramedRecord ctx.tables)) (ending : List UInt8), EndsList ctx.tables ending ∧
      input = rs.flatMap FramedRecord.bytes ++ (ending ++ rest) ∧
      (rs.map FramedRecord.record).foldlM (below.store ctx scope) done = .ok ps := by
  induction bound generalizing done input with
  | zero => cases h
  | succ bound ih =>
    obtain ⟨record?, middle, hrecord, hafter⟩ := bind_eq_ok.1 h
    cases record? with
    | none =>
      obtain ⟨rfl, rfl⟩ := pure_eq_ok.1 hafter
      obtain ⟨ending, hending, rfl⟩ := exists_endsList hrecord
      exact ⟨[], ending, hending, rfl, rfl⟩
    | some r =>
      obtain ⟨done', hstore, hrest⟩ := stateT_lift_bind_eq_ok.1 hafter
      obtain ⟨f, rfl, rfl⟩ := FramedRecord.exists_framedRecord hrecord
      obtain ⟨rs, ending, hending, rfl, hrun⟩ := ih hrest
      refine ⟨f :: rs, ending, hending, ?_, ?_⟩
      · rw [List.flatMap_cons, List.append_assoc]
      · rw [List.map_cons, List.foldlM_cons]
        exact except_bind_eq_ok.2 ⟨done', hstore, hrun⟩

/-- A list is read exactly from records in a row and a name that ends it, whatever follows, if the
records can be stored one after another. -/
theorem list_eq_ok_iff {levels : Nat} {ps : List Property} {input rest : List UInt8} :
    (ofLevels ctx (levels + 1)).list scope input = .ok (ps, rest) ↔
      ∃ (rs : List (FramedRecord ctx.tables)) (ending : List UInt8), EndsList ctx.tables ending ∧
        input = rs.flatMap FramedRecord.bytes ++ (ending ++ rest) ∧
        (rs.map FramedRecord.record).foldlM ((ofLevels ctx levels).store ctx scope) [] =
          .ok ps := by
  constructor
  · intro h
    obtain ⟨_, _, hget, h⟩ := bind_eq_ok.1 h
    cases hget
    exact exists_framed_of_readRecords h
  · rintro ⟨rs, ending, hending, rfl, hrun⟩
    rw [list_flatMap levels rs hending rest, hrun]
    rfl

end PropertyReaders

end UnrealPackage
