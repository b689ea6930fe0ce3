import UnrealPackage.Proofs.Binary.Text
import UnrealPackage.Proofs.Property.WellFormed
/-!
# Records read back

`reads_propertyRecord`: a record is read back from its bytes, its payload not yet interpreted. Three
things are told by the info byte alone or with bytes that follow only then: the type, the size of
the payload, and whether there is a slot. A boolean uses the place of the last one for its value,
and so has no slot but the first.
-/

namespace UnrealPackage

/-! ## The info byte -/

theorem PropertyTag.code_lt (tag : PropertyTag) : tag.code.toNat < 16 := by
  cases tag <;> decide

theorem PropertyTag.getD_code (tag : PropertyTag) :
    PropertyTag.all.getD tag.code.toNat .fixedArray = tag := by
  cases tag <;> rfl

/-- The code of a size fits three bits. -/
theorem Encode.sizeCode_lt (size : Nat) : Encode.sizeCode size < 8 := by
  unfold Encode.sizeCode
  split
  · next i h =>
    obtain ⟨hlt, -⟩ := List.findIdx?_eq_some_iff_getElem.1 h
    exact Nat.lt_trans hlt (by decide)
  · split
    · decide
    · split <;> decide

/-- The three parts of an info byte do not overlap. -/
theorem info_parts (flag : Bool) (tag : PropertyTag) {code : Nat} (hcode : code < 8) :
    PropertyTag.ofCode ((if flag then 128 else 0) + 16 * code + tag.code.toNat).toUInt8 = tag ∧
      ((if flag then 128 else 0) + 16 * code + tag.code.toNat).toUInt8.toNat / 16 % 8 = code ∧
      (128 ≤ ((if flag then 128 else 0) + 16 * code + tag.code.toNat).toUInt8.toNat ↔
        flag = true) := by
  have htag := tag.code_lt
  have hflag : (if flag then 128 else 0) = 0 ∧ flag = false ∨
      (if flag then 128 else 0) = 128 ∧ flag = true := by
    cases flag <;> simp
  have hinfo : ((if flag then 128 else 0) + 16 * code + tag.code.toNat).toUInt8.toNat =
      (if flag then 128 else 0) + 16 * code + tag.code.toNat := by
    simp only [Nat.toUInt8_eq, UInt8.toNat_ofNat']
    omega
  refine ⟨?_, ?_, ?_⟩
  · have hlow : ((if flag then 128 else 0) + 16 * code + tag.code.toNat) % 16 =
        tag.code.toNat := by omega
    rw [PropertyTag.ofCode, hinfo, hlow, PropertyTag.getD_code]
  · rw [hinfo]
    omega
  · rw [hinfo]
    rcases hflag with ⟨h, rfl⟩ | ⟨h, rfl⟩
    · rw [h]
      simp only [Bool.false_eq_true, iff_false]
      omega
    · rw [h]
      simp only [iff_true]
      omega

/-! ## What the info byte announces -/

/-- What a record of a kind tells of a struct: for a struct, the spelling of its short name. -/
def PropertyKind.Told (t : Tables) : PropertyKind → Option String → Prop
  | .struct structName, told => ∃ spelled, t.Spells (shortName structName) spelled ∧
    told = some spelled
  | _, told => told = none

namespace Decode

/-- A size below 2 ^ 31 is told by its code alone, or by the bytes that the code announces. -/
theorem reads_payloadSize {size : Nat} (h : size < 0x80000000) :
    Reads (payloadSize (Encode.sizeCode size)) (Encode.payloadSize size) size := by
  cases hfind : fixedSizes.findIdx? (· == size) with
  | some i =>
    obtain ⟨hlt, heq, -⟩ := List.findIdx?_eq_some_iff_getElem.1 hfind
    have hsize : fixedSizes[i]? = some size := by
      rw [List.getElem?_eq_getElem hlt, beq_iff_eq.1 heq]
    have hcode : Encode.sizeCode size = i := by rw [Encode.sizeCode, hfind]
    have hi : i < 5 := hlt
    have hbytes : Encode.payloadSize size = [] := by
      unfold Encode.payloadSize
      split <;> first | omega | rfl
    rw [hbytes, hcode, payloadSize, hsize]
    exact .pure size
  | none =>
    simp only [Encode.payloadSize, Encode.sizeCode, hfind]
    by_cases h1 : size ≤ 0xFF
    · have hr := (reads_u8 size.toUInt8).map UInt8.toNat
      have hsize : size.toUInt8.toNat = size := by
        simp only [Nat.toUInt8_eq, UInt8.toNat_ofNat']
        omega
      rw [hsize] at hr
      simp only [if_pos h1]
      exact hr
    · by_cases h2 : size ≤ 0xFFFF
      · have hr := (reads_u16 size.toUInt16).map UInt16.toNat
        have hsize : size.toUInt16.toNat = size := by
          simp only [Nat.toUInt16_eq, UInt16.toNat_ofNat']
          omega
        rw [hsize] at hr
        simp only [if_neg h1, if_pos h2]
        exact hr
      · have hr := (reads_i32 (Int32.ofNat size)).map (·.toInt.toNat)
        have hsize : (Int32.ofNat size).toInt.toNat = size := by
          rw [Int32.toInt_ofNat_of_lt h, Int.toNat_natCast]
        rw [hsize] at hr
        simp only [if_neg h1, if_neg h2]
        exact hr

/-- Without the flag, the slot goes without saying. -/
theorem reads_recordSlot_unflagged (tag : PropertyTag) : Reads (recordSlot tag false) [] 0 :=
  .pure 0

/-- A slot is announced by the flag, unless the flag is the value of a boolean. -/
theorem reads_recordSlot {tag : PropertyTag} {slot : Nat} (v : PropertyValue)
    (hslot : slot < 0x80000000) (hbool : tag = .bool → slot = 0) :
    Reads (recordSlot tag (Encode.recordFlag tag slot v)) (Encode.recordSlot tag slot) slot := by
  unfold recordSlot Encode.recordSlot
  by_cases htag : tag = .bool
  · obtain rfl := hbool htag
    subst htag
    simp only [bne_self_eq_false, Bool.and_false, Bool.false_eq_true, if_false, Nat.lt_irrefl,
      and_false]
    exact .pure 0
  · have hflag : Encode.recordFlag tag slot v = decide (0 < slot) := by
      unfold Encode.recordFlag
      split
      · exact absurd rfl htag
      · rfl
    by_cases hpos : 0 < slot
    · have hr := (reads_compact (Int32.ofNat slot)).map Int32.toInt
      rw [Int32.toInt_ofNat_of_lt hslot] at hr
      rw [hflag, if_pos (by simp [hpos, htag]), if_pos ⟨htag, hpos⟩]
      exact hr
    · obtain rfl : slot = 0 := by omega
      rw [hflag, if_neg (by simp), if_neg (by simp)]
      exact .pure 0

/-- Only the record of a struct tells the name of one. -/
theorem reads_structName {t : Tables} {kind : PropertyKind} {tag : PropertyTag}
    {told : Option String} (htag : PropertyTag.ofKind kind = .ok tag) (htold : kind.Told t told) :
    ∃ bytes, Encode.structNameIndex t kind = .ok bytes ∧ Reads (structName t tag) bytes told := by
  cases kind with
  | struct structName =>
    obtain ⟨spelled, hspells, rfl⟩ := htold
    obtain ⟨index, hindex, hname, -⟩ := hspells.exists_index
    cases htag
    refine ⟨Encode.compact index ++ [], ?_, (reads_compact index).bind ((Reads.lift hname).map _)⟩
    rw [Encode.structNameIndex, hindex, List.append_nil]
    rfl
  | delegate | pointer => cases htag
  | _ =>
    cases htag
    cases htold
    exact ⟨[], rfl, .pure none⟩

/-! ## Records -/

/-- A record is read back, its payload not yet interpreted. -/
theorem reads_propertyRecord {t : Tables} {index : NameIndex} {spelled : String}
    {kind : PropertyKind} {tag : PropertyTag} {told : Option String} {slot : Nat}
    {payload : List UInt8} (v : PropertyValue) (hname : t.name index = .ok spelled)
    (hnone : sameName spelled noneName = false) (htag : PropertyTag.ofKind kind = .ok tag)
    (htold : kind.Told t told) (hslot : slot < 0x80000000) (hbool : tag = .bool → slot = 0)
    (hpayload : payload.length < 0x80000000) :
    ∃ bytes, Encode.propertyRecord t index tag kind slot v payload = .ok bytes ∧ bytes ≠ [] ∧
      Reads (propertyRecord t) bytes (some
        { name := spelled, tag, flag := Encode.recordFlag tag slot v, structName := told, slot,
          payload }) := by
  obtain ⟨structBytes, hstruct, hreadsStruct⟩ := reads_structName htag htold
  obtain ⟨hinfoTag, hinfoSize, hinfoFlag⟩ :=
    info_parts (Encode.recordFlag tag slot v) tag (Encode.sizeCode_lt payload.length)
  generalize hinfo : ((if Encode.recordFlag tag slot v then 128 else 0) +
    16 * Encode.sizeCode payload.length + tag.code.toNat).toUInt8 = info at *
  have hrecord : Encode.propertyRecord t index tag kind slot v payload =
      .ok (Encode.compact index ++ ([info] ++ (structBytes ++
        (Encode.payloadSize payload.length ++ (Encode.recordSlot tag slot ++ payload))))) := by
    rw [Encode.propertyRecord, hstruct, ← hinfo]
    simp only [List.append_assoc]
    rfl
  refine ⟨_, hrecord, by simp [Encode.compact_ne_nil], ?_⟩
  have hflag : decide (128 ≤ info.toNat) = Encode.recordFlag tag slot v := by
    rw [Bool.eq_iff_iff, decide_eq_true_eq, hinfoFlag]
  refine (reads_compact index).bind ((Reads.lift hname).bind ?_)
  rw [if_neg (by rw [hnone]; exact Bool.false_ne_true)]
  refine (reads_u8 info).bind ?_
  dsimp only
  rw [hinfoTag, hinfoSize, hflag]
  refine hreadsStruct.bind ((reads_payloadSize hpayload).bind ?_)
  exact (reads_recordSlot v hslot hbool).bind ((reads_bytes payload).bindPure _)

end Decode

end UnrealPackage
