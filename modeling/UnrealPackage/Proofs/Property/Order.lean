import UnrealPackage.Proofs.Property.Framing
import UnrealPackage.Proofs.Property.Gathering
/-!
# Records in any order

A list can be read exactly when each of its records can be read as a list of its own
(`exists_readFramed_iff`), and each slot holds what the last record for it sets
(`holdsLast_of_readFramed`). So only the order of the records for one slot matters
(`readProperties_reordered`).
-/

namespace UnrealPackage

open Decode PropertyReaders

variable {ctx : PropertyContext} {scope : String} {ending : List UInt8} {ps : List Property}

/-- The result of reading records and the end of the list, with more behind it. -/
def readFramed (ctx : PropertyContext) (scope : String) (rs : List (FramedRecord ctx.tables))
    (ending rest : List UInt8) : Except Error (List Property × List UInt8) :=
  readProperties ctx scope (rs.flatMap FramedRecord.bytes ++ (ending ++ rest))

/-- Whether the properties are those that the records name, with the values of the last records: a
slot holds `v` if the last record for it, read as a list of its own, sets it to `v`. -/
structure HoldsLast (ctx : PropertyContext) (scope : String) (ending : List UInt8)
    (rs : List (FramedRecord ctx.tables)) (ps : List Property) : Prop where
  distinct : Distinct ps
  asked : ∀ p ∈ ps, ∃ r ∈ rs, sameName p.name r.name = true
  named : ∀ r ∈ rs, ∃ p ∈ ps, sameName p.name r.name = true
  last : ∀ p ∈ ps, ∀ (slot : Nat) v, p.get? slot = some v ↔
    ∃ r q, (rs.filter (·.record.isFor p.name slot)).getLast? = some r ∧
      readFramed ctx scope [r] ending [] = .ok ([q], []) ∧ q.get? slot = some v

/-- What the loop over the records makes is what is read. -/
theorem readFramed_eq_ok_iff (hending : EndsList ctx.tables ending)
    (rs : List (FramedRecord ctx.tables)) {rest left : List UInt8} :
    readFramed ctx scope rs ending rest = .ok (ps, left) ↔ left = rest ∧
      (rs.map FramedRecord.record).foldlM
        ((ofLevels ctx propertyNestingLimit).store ctx scope) [] = .ok ps := by
  rw [readFramed, readProperties, list_flatMap _ rs hending, except_bind_eq_ok]
  constructor
  · rintro ⟨ps', hrun, h⟩
    cases h
    exact ⟨rfl, hrun⟩
  · rintro ⟨rfl, hrun⟩
    exact ⟨ps, hrun, rfl⟩

/-- A list of one record is the field that the record sets. -/
theorem readFramed_singleton (hending : EndsList ctx.tables ending)
    (r : FramedRecord ctx.tables) {rest left : List UInt8} :
    readFramed ctx scope [r] ending rest = .ok (ps, left) ↔ left = rest ∧ ∃ template v,
      Sets ctx (ofLevels ctx propertyNestingLimit) scope r.record template v ∧
        ps = [filled (.empty template) r.record v] := by
  simp only [readFramed_eq_ok_iff hending, List.map_cons, List.map_nil, List.foldlM_cons,
    List.foldlM_nil, bind_pure, gathered_nil.store_eq_ok_iff]
  rfl

/-- A list can be read exactly when each of its records can be as a list of its own. -/
theorem exists_readFramed_iff (hending : EndsList ctx.tables ending)
    (rs : List (FramedRecord ctx.tables)) (rest : List UInt8) :
    (∃ ps, readFramed ctx scope rs ending rest = .ok (ps, rest)) ↔
      ∀ r ∈ rs, ∃ ps, readFramed ctx scope [r] ending [] = .ok (ps, []) := by
  simp only [readFramed_eq_ok_iff hending rs, true_and, gathered_nil.exists_foldlM_iff,
    List.forall_mem_map, readFramed_singleton hending]
  refine forall₂_congr fun r _ => ⟨?_, ?_⟩
  · rintro ⟨template, v, hsets⟩
    exact ⟨_, template, v, hsets, rfl⟩
  · rintro ⟨ps, template, v, hsets, -⟩
    exact ⟨template, v, hsets⟩

/-- The properties that are read hold what the last records set. -/
theorem holdsLast_of_readFramed (hending : EndsList ctx.tables ending)
    {rs : List (FramedRecord ctx.tables)} {rest left : List UInt8}
    (h : readFramed ctx scope rs ending rest = .ok (ps, left)) :
    HoldsLast ctx scope ending rs ps := by
  have hgathered := gathered_nil.run ((readFramed_eq_ok_iff hending rs).1 h).2
  rw [List.nil_append] at hgathered
  constructor
  case distinct => exact hgathered.distinct
  case asked =>
    intro p hp
    obtain ⟨r, hr, hname⟩ := hgathered.asked p hp
    obtain ⟨f, hf, rfl⟩ := List.mem_map.1 hr
    exact ⟨f, hf, hname⟩
  case named =>
    intro f hf
    exact hgathered.named f.record (List.mem_map_of_mem hf)
  case last =>
    intro p hp slot v
    rw [hgathered.last p hp]
    simp only [lastFor, List.filter_map, List.getLast?_map, Option.map_eq_some_iff]
    constructor
    · rintro ⟨_, template, ⟨f, hlast, rfl⟩, hsets⟩
      refine ⟨f, _, hlast, (readFramed_singleton hending f).2 ⟨rfl, template, v, hsets, rfl⟩, ?_⟩
      have hfor : f.record.isFor p.name slot = true := by
        simpa using (List.mem_filter.1 (List.mem_of_getLast? hlast)).2
      have hlt := hsets.toNat_slot_lt (p := .empty template) List.length_replicate
      rw [get?_filled hlt, (PropertyRecord.isFor_iff.1 hfor).2, Int.toNat_natCast, if_pos rfl]
    · rintro ⟨f, q, hlast, hread, hget⟩
      obtain ⟨-, template, w, hsets, hq⟩ := (readFramed_singleton hending f).1 hread
      cases hq
      rw [get?_filled (hsets.toNat_slot_lt List.length_replicate)] at hget
      split at hget
      · cases hget
        exact ⟨f.record, template, ⟨f, hlast, rfl⟩, hsets⟩
      · rw [get?_empty] at hget
        cases hget

/-- Whether the records of two lists are the same, and those for one slot stand in the same
order. -/
structure Reordered {t : Tables} (rs rs' : List (FramedRecord t)) : Prop where
  perm : rs.Perm rs'
  kept : ∀ name slot, rs.filter (·.record.isFor name slot) = rs'.filter (·.record.isFor name slot)

/-- Neighbours that are not for the same slot may change places. -/
theorem Reordered.swap {t : Tables} {r r' : FramedRecord t}
    (h : sameName r.name r'.name = false ∨ r.slot ≠ r'.slot) (rs : List (FramedRecord t)) :
    Reordered (r :: r' :: rs) (r' :: r :: rs) where
  perm := .swap r' r rs
  kept := by
    intro name slot
    simp only [List.filter_cons]
    split
    · next hr =>
      have hr' : ¬r'.record.isFor name slot = true := by
        intro hr'
        obtain ⟨hname, hslot⟩ := PropertyRecord.isFor_iff.1 hr
        obtain ⟨hname', hslot'⟩ := PropertyRecord.isFor_iff.1 hr'
        rcases h with h | h
        · have hsame : sameName r.name r'.name = true :=
            sameName_iff.2 ((sameName_iff.1 hname).trans (sameName_iff.1 hname').symm)
          rw [hsame] at h
          cases h
        · exact h (hslot.trans hslot'.symm)
      rw [if_neg hr', if_neg hr']
    · rfl

/-- Records may come in any order, as long as those for one slot keep theirs: either order is
refused, or both are read as the same properties, up to the order in which these stand, and each
slot holds what the last record for it sets. -/
theorem readProperties_reordered (ctx : PropertyContext) (scope : String)
    {rs rs' : List (FramedRecord ctx.tables)} (h : Reordered rs rs') {ending : List UInt8}
    (hending : EndsList ctx.tables ending) (rest : List UInt8) :
    (∃ ps ps', readFramed ctx scope rs ending rest = .ok (ps, rest) ∧
      readFramed ctx scope rs' ending rest = .ok (ps', rest) ∧ ps.Perm ps' ∧
      HoldsLast ctx scope ending rs ps ∧ HoldsLast ctx scope ending rs' ps') ∨
    ∃ e e', readFramed ctx scope rs ending rest = .error e ∧
      readFramed ctx scope rs' ending rest = .error e' := by
  have hmem : ∀ r, r ∈ rs.map FramedRecord.record ↔ r ∈ rs'.map FramedRecord.record :=
    fun r => (h.perm.map _).mem_iff
  have hlast : ∀ name slot, lastFor name slot (rs.map FramedRecord.record) =
      lastFor name slot (rs'.map FramedRecord.record) := by
    intro name slot
    simp only [lastFor, List.filter_map]
    exact congrArg (fun l => (l.map FramedRecord.record).getLast?) (h.kept name slot)
  have hboth : (∃ ps, readFramed ctx scope rs ending rest = .ok (ps, rest)) ↔
      ∃ ps, readFramed ctx scope rs' ending rest = .ok (ps, rest) := by
    rw [exists_readFramed_iff hending, exists_readFramed_iff hending]
    exact forall_congr' fun r => imp_congr_left h.perm.mem_iff
  cases hread : readFramed ctx scope rs ending rest with
  | ok result =>
    obtain ⟨ps, left⟩ := result
    obtain ⟨rfl, hrun⟩ := (readFramed_eq_ok_iff hending rs).1 hread
    obtain ⟨ps', hread'⟩ := hboth.1 ⟨ps, hread⟩
    have hrun' := ((readFramed_eq_ok_iff hending rs').1 hread').2
    exact .inl ⟨ps, ps', rfl, hread', (gathered_nil.run hrun).perm (gathered_nil.run hrun') hmem
      hlast, holdsLast_of_readFramed hending hread, holdsLast_of_readFramed hending hread'⟩
  | error e =>
    cases hread' : readFramed ctx scope rs' ending rest with
    | ok result =>
      obtain ⟨ps', left⟩ := result
      obtain ⟨rfl, -⟩ := (readFramed_eq_ok_iff hending rs').1 hread'
      obtain ⟨ps, hread''⟩ := hboth.2 ⟨ps', hread'⟩
      cases hread.symm.trans hread''
    | error e' => exact .inr ⟨e, e', rfl, rfl⟩

/-- A reader for a flag and a field of two slots. -/
def PropertyContext.twoSlots : PropertyContext where
  tables := ⟨"P", [⟨"None", 0⟩, ⟨"Hidden", 0⟩, ⟨"Ammo", 0⟩], [], []⟩
  schema := fun _ => .ok [⟨"Hidden", .bool, 1⟩, ⟨"Ammo", .byte, 2⟩]
  charset := .windows1252

/-- A record that sets the flag. -/
def hiddenRecord : FramedRecord PropertyContext.twoSlots.tables where
  nameBytes := Encode.compact 1
  nameIndex := 1
  name := "Hidden"
  info := 0xD3
  structBytes := []
  structName := none
  sizeBytes := [0]
  slotBytes := []
  slot := 0
  payload := []
  reads_name := reads_compact 1
  name_eq := rfl
  ne_none := by decide
  reads_struct := .pure none
  reads_size := (reads_u8 0).map UInt8.toNat
  reads_slot := .pure 0

/-- A record for the second slot of the other field. -/
def ammoRecord (value : UInt8) : FramedRecord PropertyContext.twoSlots.tables where
  nameBytes := Encode.compact 2
  nameIndex := 2
  name := "Ammo"
  info := 0x81
  structBytes := []
  structName := none
  sizeBytes := []
  slotBytes := Encode.compact 1
  slot := 1
  payload := [value]
  reads_name := reads_compact 2
  name_eq := rfl
  ne_none := by decide
  reads_struct := .pure none
  reads_size := .pure 1
  reads_slot := (reads_compact 1).map Int32.toInt

/-- Two records for one slot and one for another, in two orders. -/
theorem readProperties_reordered_ammo :
    ∃ ps ps', readFramed .twoSlots "Thing" [hiddenRecord, ammoRecord 7, ammoRecord 9] [0] [] =
        .ok (ps, []) ∧
      readFramed .twoSlots "Thing" [ammoRecord 7, hiddenRecord, ammoRecord 9] [0] [] =
        .ok (ps', []) ∧
      ps.Perm ps' ∧
      HoldsLast .twoSlots "Thing" [0] [hiddenRecord, ammoRecord 7, ammoRecord 9] ps ∧
      HoldsLast .twoSlots "Thing" [0] [ammoRecord 7, hiddenRecord, ammoRecord 9] ps' := by
  have hswap : Reordered [hiddenRecord, ammoRecord 7, ammoRecord 9]
      [ammoRecord 7, hiddenRecord, ammoRecord 9] := .swap (.inl (by decide)) _
  have hending : EndsList PropertyContext.twoSlots.tables [0] :=
    ⟨0, "None", reads_compact 0, rfl, by decide⟩
  rcases readProperties_reordered .twoSlots "Thing" hswap hending [] with h | ⟨e, e', h, -⟩
  · exact h
  · have hread : readFramed .twoSlots "Thing" [hiddenRecord, ammoRecord 7, ammoRecord 9] [0] [] =
        .ok ([⟨"Hidden", ⟨"Hidden", .bool, 1⟩, [some (.bool true)]⟩,
          ⟨"Ammo", ⟨"Ammo", .byte, 2⟩, [none, some (.byte 9)]⟩], []) := rfl
    cases h.symm.trans hread

end UnrealPackage
