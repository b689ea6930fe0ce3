import UnrealPackage.Library.Queries
import UnrealPackage.Proofs.Field.Layout
import UnrealPackage.Proofs.Library.Consult
import UnrealPackage.Proofs.Property.Extent
/-!
# What property lists ask a schema for

A property list asks for the fields of its owner when a record names a property for the first time,
and every record takes a byte in front of its payload. So a list asks no more often than it takes
bytes, lists in the payloads of its records included (`consulting_readProperties`), and what is read
from a payload asks no more often than the payload has bytes (`consults_decodeField`).
-/

namespace UnrealPackage

open Decode

variable {t : Tables} {cs : Charset} {scope : String}

/-- Structs without properties of their own are framed. -/
theorem Decode.framed_plainStruct (plain : PlainStruct) : Framed (plainStruct plain) := by
  have hsingle : Framed single := framed_u32.map _
  cases plain with
  | vector => exact hsingle.bind fun _ => hsingle.bind fun _ => hsingle.bind fun _ => .pure _
  | rotator =>
    exact framed_i32.bind fun _ => framed_i32.bind fun _ => framed_i32.bind fun _ => .pure _
  | color =>
    exact framed_u8.bind fun _ => framed_u8.bind fun _ => framed_u8.bind fun _ =>
      framed_u8.bind fun _ => .pure _

/-- A record takes a byte besides its payload. -/
theorem Decode.length_of_propertyRecord {input rest : List UInt8} {r : PropertyRecord}
    (h : propertyRecord t input = .ok (some r, rest)) :
    r.payload.length + 1 + rest.length ≤ input.length := by
  obtain ⟨_, m₁, hm₁, h₁⟩ := framed_compact.leaves.step h
  obtain ⟨_, m₂, hm₂, h₂⟩ := (Framed.lift _).leaves.step h₁
  split at h₂
  · cases h₂
  · obtain ⟨_, m₃, hinfo, h₃⟩ := bind_eq_ok.1 h₂
    obtain ⟨_, m₄, hm₄, h₄⟩ := (framed_structName t _).leaves.step h₃
    obtain ⟨_, m₅, hm₅, h₅⟩ := (framed_payloadSize _).leaves.step h₄
    obtain ⟨_, m₆, hm₆, h₆⟩ := (framed_recordSlot _ _).leaves.step h₅
    obtain ⟨payload, m₇, hpayload, h₇⟩ := bind_eq_ok.1 h₆
    obtain ⟨hrecord, rfl⟩ := pure_eq_ok.1 h₇
    cases hrecord
    obtain ⟨rfl, -⟩ := bytes_eq_ok.1 hpayload
    have hbehind := (hm₆.trans (hm₅.trans hm₄)).length_le
    have hfront := (hm₂.trans hm₁).length_le
    rw [u8_eq_ok.1 hinfo, List.length_cons] at hfront
    rw [List.length_append] at hbehind
    dsimp only
    omega

/-- A step that takes no bytes is done before the next one. -/
theorem Decode.lift_bind_run {α β : Type} {x : Except Error α} {f : α → Decode β}
    {input : List UInt8} :
    ((liftM x : Decode α) >>= f) input = x >>= fun a => f a input := by
  cases x <;> rfl

namespace PropertyReaders

/-- Whether readers take a byte at least for each question to the schema. -/
structure Consult (readers : SchemaResolver → PropertyReaders) : Prop where
  list : ∀ scope, Consulting fun schema => (readers schema).list scope
  element : ∀ kind, Consulting fun schema => (readers schema).element kind

variable {below : SchemaResolver → PropertyReaders}

theorem consulting_elements (h : Consult below) (inner : PropertyKind) :
    Consulting fun schema => (below schema).elements inner :=
  (Consulting.of_framed framed_compact).bind fun count =>
    ((h.element inner).times count.toInt.toNat).map _

/-- Elements consult the schema for no more than the levels below do. -/
theorem consulting_readElement (h : Consult below) (kind : PropertyKind) :
    Consulting fun schema => readElement cs (below schema) kind := by
  simp only [readElement]
  cases kind with
  | byte => exact .of_framed (framed_u8.map _)
  | int => exact .of_framed (framed_i32.map _)
  | bool => exact (Consulting.of_framed framed_u8).map _
  | float => exact .of_framed ((framed_u32.map _).map _)
  | object _ => exact .of_framed (framed_compactRef.map _)
  | classRef => exact .of_framed (framed_compactRef.map _)
  | name => exact .of_framed (framed_compact.map _)
  | str => exact .of_framed ((framed_text cs).map _)
  | array _ inner _ => exact consulting_elements h inner
  | struct structName =>
    dsimp only
    split
    · exact .of_framed (framed_plainStruct _)
    · exact (h.list structName).map _
  | delegate | map | fixedArray | pointer =>
    dsimp only
    exact .of_framed ((Framed.lift _).bind fun _ => .throw _)

/-- Payloads consult the schema for no more than the levels below do. -/
theorem consulting_readPayload (h : Consult below) (r : PropertyRecord) (kind : PropertyKind)
    (mismatch : Error) :
    Consulting fun schema => readPayload cs (below schema) r kind mismatch := by
  simp only [readPayload]
  split
  · exact .of_framed (framed_u8.map _)
  · exact .of_framed (framed_i32.map _)
  · exact .of_framed (.pure _)
  · exact .of_framed ((framed_u32.map _).map _)
  · exact .of_framed (framed_compactRef.map _)
  · exact .of_framed (framed_compactRef.map _)
  · exact .of_framed (framed_compact.map _)
  · exact .of_framed ((framed_text cs).map _)
  · split
    · exact consulting_elements h _
    · exact .of_framed (.throw _)
  · split
    · exact .of_framed (framed_plainStruct _)
    · split
      · exact (h.list _).map _
      · exact .of_framed (.throw _)
  · exact .of_framed (.throw _)

/-- The fields of the owner are asked for once at most. -/
theorem consults_place (scope name : String) (done : List Property) :
    Consults (fun _ => 0) 1 fun schema => place schema scope name done := by
  simp only [place]
  split
  · exact .known fun _ _ => Nat.zero_le _
  · exact .ask fun _ => .known fun _ _ => Nat.le_refl _

/-- A property is filled in with what its payload consults the schema for. -/
theorem consults_fill (h : Consult below) (r : PropertyRecord) (p : Property) :
    Consults (fun _ => 0) r.payload.length fun schema => fill cs (below schema) scope r p := by
  simp only [fill]
  refine .after fun expected => ?_
  split
  · exact .failed
  · split
    · exact .failed
    · exact (consulting_readPayload h r p.template.kind _ r.payload).bind fun _ =>
        .known fun _ _ => Nat.zero_le _

/-- A record that is stored asks once more often than its payload has bytes at most. -/
theorem consults_store (h : Consult below) (done : List Property) (r : PropertyRecord) :
    Consults (fun _ => 0) (r.payload.length + 1) fun schema =>
      store ⟨t, schema, cs⟩ (below schema) scope done r := by
  have hplace := (consults_place scope r.name done).shift r.payload.length
  rw [Nat.add_comm]
  refine hplace.bind fun (i, done) => ?_
  dsimp only
  cases done[i]? with
  | none => exact .known fun _ _ => Nat.zero_le _
  | some p =>
    rw [Nat.zero_add]
    exact (consults_fill h r p).bind fun _ => .known fun _ _ => Nat.zero_le _

/-- Records consult the schema for their own struct and for what the levels below do. -/
theorem consulting_readRecords (h : Consult below) (bound : Nat) (done : List Property) :
    Consulting fun schema => readRecords ⟨t, schema, cs⟩ (below schema) scope bound done := by
  induction bound generalizing done with
  | zero => exact .of_framed (.throw _)
  | succ bound ih =>
    intro input
    -- the byte that a record takes besides its payload pays for the fields of the owner
    have hrecord : Consults
        (fun read => (read.1.elim 0 fun r => r.payload.length + 1) + read.2.length) input.length
        fun _ => propertyRecord t input := by
      refine .known fun (record?, rest) hread => ?_
      cases record? with
      | none =>
        rw [Option.elim_none, Nat.zero_add]
        exact ((framed_propertyRecord t).leaves hread).length_le
      | some r => exact length_of_propertyRecord hread
    refine hrecord.bind fun (record?, rest) => ?_
    cases record? with
    | none => exact .known fun _ hread => by cases hread; exact Nat.le_add_left _ _
    | some r =>
      simp only [lift_bind_run]
      exact ((consults_store h done r).shift rest.length).bind fun done =>
        (ih done rest).mono (Nat.le_add_left _ _)

/-- Readers of any number of levels consult the schema. -/
theorem consult_ofLevels (levels : Nat) :
    Consult fun schema => ofLevels ⟨t, schema, cs⟩ levels := by
  induction levels with
  | zero => exact ⟨fun _ => .of_framed (.throw _), fun _ => .of_framed (.throw _)⟩
  | succ levels ih =>
    exact ⟨fun scope input => consulting_readRecords ih (input.length + 1) [] input,
      consulting_readElement ih⟩

end PropertyReaders

theorem consulting_readProperties (scope : String) :
    Consulting fun schema => readProperties ⟨t, schema, cs⟩ scope :=
  (PropertyReaders.consult_ofLevels _).list scope

/-! ## Payloads -/

/-- What stands in front of a record consults the schema for properties only. -/
theorem Decode.consulting_fieldLead (index : Nat) (entry : ExportEntry) (type : FieldClass) :
    Consulting fun schema => fieldLead ⟨t, schema, cs⟩ index entry type := by
  have hproperties : Consulting fun schema => (do
      let scope ← liftM (t.objectClassFullName (.ofExport index))
      let _ ← readProperties ⟨t, schema, cs⟩ scope : Decode Unit) :=
    (Consulting.of_framed (.lift _)).bind fun scope =>
      (consulting_readProperties scope).bind fun _ => .of_framed (.pure _)
  simp only [fieldLead]
  split
  · refine (Consulting.of_framed framed_stateFrame).bind fun _ => ?_
    split
    · exact hproperties
    · exact .of_framed (.pure _)
  · split
    · exact hproperties
    · exact .of_framed (.pure _)

/-- What is read from the payload of a field asks no more often than the payload has bytes. -/
theorem consults_decodeField (format : Script.ScriptFormat) (index : Nat) (payload : List UInt8) :
    Consults (fun _ => 0) payload.length fun schema =>
      decodeField ⟨t, schema, cs⟩ format index payload := by
  cases hhead : fieldHead t index with
  | error e =>
    have hread : ∀ schema, decodeField ⟨t, schema, cs⟩ format index payload = .error e := by
      intro schema
      rw [decodeField, hhead, except_error_bind]
    simp only [hread]
    exact .failed
  | ok head =>
    obtain ⟨entry, type, name⟩ := head
    have hread : ∀ schema, decodeField ⟨t, schema, cs⟩ format index payload =
        fieldLead ⟨t, schema, cs⟩ index entry type payload >>= fun read => Prod.fst <$> (do
          let super ← compactRef
          let next ← compactRef
          let body ← fieldBody ⟨t, .any, format, cs⟩ payload.length type
          pure { index, name, super, next, body } : Decode FieldRecord) read.2 := by
      intro schema
      have hhead : fieldHead (⟨t, schema, cs⟩ : PropertyContext).tables index =
        .ok (entry, type, name) := hhead
      rw [decodeField_eq hhead]
      exact map_bind _ _ _
    simp only [hread]
    exact (consulting_fieldLead index entry type payload).bind fun _ =>
      .known fun _ _ => Nat.zero_le _

namespace Located

theorem consults_decode {x : Located} {data : List UInt8} (h : x.payload = .ok data) :
    Consults (fun _ => 0) data.length fun schema => x.decode schema := by
  simp only [decode, h]
  exact consults_decodeField _ _ _

/-- The properties of an export consult the schema for no more than its payload can pay for. -/
theorem consults_properties {x : Located} {data : List UInt8} (h : x.payload = .ok data)
    (scope : String) (start : Nat) :
    Consults (fun _ => 0) data.length fun schema => x.properties schema scope start := by
  simp only [properties, h]
  have hread : Consults (fun _ => 0) (data.drop start).length fun schema =>
      readProperties (x.propertyContext schema) scope (data.drop start) >>= fun read =>
        pure read.1 :=
    (consulting_readProperties scope _).bind fun _ => .known fun _ _ => Nat.zero_le _
  exact hread.mono (by rw [List.length_drop]; omega)

end Located

end UnrealPackage
