import UnrealPackage.Proofs.Property.Record
import UnrealPackage.Proofs.Tables.Entry
/-!
# Values read back

The value of a property is stored in one of two ways: as the payload of a record, which tells its
type, or as an element of an array, which tells nothing. But for booleans the two have the same
bytes; they differ in where the reader learns whether a struct is a plain one, from the name in the
record or from the name of the struct itself.

`PropertyReaders.ReadsBack` is the induction hypothesis of the round trip: what `PropertyFits` says
of one level is read back by the readers of that level. Values are read back here from what may be
nested in them. Which slot a value then goes to is told by its record
(`PropertyReaders.fill_eq_ok_iff`).
-/

namespace UnrealPackage

open Decode

variable {ctx : PropertyContext} {below : PropertyReaders} {fits : PropertyFits}
  {kind : PropertyKind} {v : PropertyValue}

/-- The bytes of an array element. -/
def PropertyValue.encodeElement (t : Tables) (cs : Charset) (kind : PropertyKind)
    (v : PropertyValue) : Except Error (List UInt8) :=
  match kind, v with
  | .bool, .bool b => pure [if b then 1 else 0]
  | _, _ => v.encode t cs kind

/-- The first element is written in front of the others. -/
theorem PropertyValue.encodeElements_cons (t : Tables) (cs : Charset) (kind : PropertyKind)
    (v : PropertyValue) (vs : List PropertyValue) :
    PropertyValue.encodeElements t cs kind (v :: vs) =
      v.encodeElement t cs kind >>= fun front =>
        PropertyValue.encodeElements t cs kind vs >>= fun more => pure (front ++ more) := by
  cases kind <;> cases v <;> rfl

/-- Whether the readers give back what fits their level. A length that is stored in front of an
element's parts can only be trusted if the element is short enough. -/
structure PropertyReaders.ReadsBack (ctx : PropertyContext) (below : PropertyReaders)
    (fits : PropertyFits) : Prop where
  list : ∀ {scope ps}, fits.list scope ps → ∃ bytes,
    writeProperties ctx.tables ctx.charset ps = .ok bytes ∧ bytes ≠ [] ∧
    Reads (below.list scope) bytes (PropertyValue.pruneFields ps)
  element : ∀ {kind v}, fits.element kind v → ∃ bytes,
    v.encodeElement ctx.tables ctx.charset kind = .ok bytes ∧ bytes ≠ [] ∧
    (bytes.length < 0x80000000 → Reads (below.element kind) bytes v.prune)

/-! ## Structs and arrays -/

/-- A struct is read back by the reader that its spelling asks for. -/
theorem reads_struct {structName spelled : String} (h : below.ReadsBack ctx fits)
    (hv : fits.Struct structName spelled v) : ∃ bytes,
    v.encode ctx.tables ctx.charset (.struct structName) = .ok bytes ∧ bytes ≠ [] ∧
    Reads (match PlainStruct.ofName? spelled with
      | some plain => plainStruct plain
      | none => PropertyValue.struct <$> below.list structName) bytes v.prune := by
  cases hv with
  | @vector x y z hplain =>
    have hr : Reads (plainStruct .vector) _ (.vector x y z) :=
      (reads_single x).bind <| (reads_single y).bind <| (reads_single z).bindPure _
    rw [hplain]
    refine ⟨_, rfl, ?_, hr.congr (List.append_assoc _ _ _).symm⟩
    exact List.append_ne_nil_of_right_ne_nil _ (List.cons_ne_nil _ _)
  | @rotator pitch yaw roll hplain =>
    have hr : Reads (plainStruct .rotator) _ (.rotator pitch yaw roll) :=
      (reads_i32 pitch).bind <| (reads_i32 yaw).bind <| (reads_i32 roll).bindPure _
    rw [hplain]
    refine ⟨_, rfl, ?_, hr.congr (List.append_assoc _ _ _).symm⟩
    exact List.append_ne_nil_of_right_ne_nil _ (List.cons_ne_nil _ _)
  | @color b g r a hplain =>
    have hr : Reads (plainStruct .color) _ (.color b g r a) :=
      (reads_u8 b).bind <| (reads_u8 g).bind <| (reads_u8 r).bind <| (reads_u8 a).bindPure _
    rw [hplain]
    exact ⟨_, rfl, List.cons_ne_nil _ _, hr⟩
  | list hplain hfields =>
    obtain ⟨bytes, hbytes, hne, hr⟩ := h.list hfields
    rw [hplain]
    exact ⟨bytes, hbytes, hne, hr.map _⟩

/-- Array elements are read back in a row; each takes a byte at least. -/
theorem reads_elements {vs : List PropertyValue} (h : below.ReadsBack ctx fits)
    (hvs : ∀ v ∈ vs, fits.element kind v) : ∃ bytes,
    PropertyValue.encodeElements ctx.tables ctx.charset kind vs = .ok bytes ∧
    vs.length ≤ bytes.length ∧ (bytes.length < 0x80000000 →
      Reads (times (below.element kind) vs.length) bytes (PropertyValue.pruneElements vs)) := by
  induction vs with
  | nil => exact ⟨[], rfl, Nat.le_refl _, fun _ => .pure []⟩
  | cons v vs ih =>
    obtain ⟨front, hfront, hne, hr⟩ := h.element (hvs v List.mem_cons_self)
    obtain ⟨more, hmore, hlength, hr'⟩ := ih fun v hv => hvs v (List.mem_cons_of_mem _ hv)
    have hpos := List.length_pos_iff.2 hne
    refine ⟨front ++ more, ?_, ?_, fun hsize => ?_⟩
    · rw [PropertyValue.encodeElements_cons, hfront, hmore]
      rfl
    · rw [List.length_cons, List.length_append]
      omega
    · rw [List.length_append] at hsize
      rw [PropertyValue.pruneElements]
      exact (hr (by omega)).bind ((hr' (by omega)).bindPure _)

/-- An array is read back with the number of elements that stands in front of them. -/
theorem reads_array {vs : List PropertyValue} (innerName : String) (innerSlots : UInt32)
    (h : below.ReadsBack ctx fits) (hvs : ∀ v ∈ vs, fits.element kind v) : ∃ bytes,
    (PropertyValue.array vs).encode ctx.tables ctx.charset (.array innerName kind innerSlots) =
      .ok bytes ∧ bytes ≠ [] ∧ (bytes.length < 0x80000000 →
      Reads (below.elements kind) bytes (PropertyValue.array vs).prune) := by
  obtain ⟨stored, hstored, hlength, hr⟩ := reads_elements h hvs
  refine ⟨Encode.compact (Int32.ofNat vs.length) ++ stored, ?_, ?_, fun hsize => ?_⟩
  · rw [PropertyValue.encode, hstored]
    rfl
  · exact List.append_ne_nil_of_left_ne_nil (Encode.compact_ne_nil _) _
  · rw [List.length_append] at hsize
    have hcount : (Int32.ofNat vs.length).toInt.toNat = vs.length := by
      rw [Int32.toInt_ofNat_of_lt (by omega), Int.toNat_natCast]
    have hcounted : Reads (counted (below.element kind) (Int32.ofNat vs.length)) stored
        (PropertyValue.pruneElements vs) := by
      rw [counted, hcount]
      exact hr (by omega)
    rw [PropertyValue.prune]
    exact (reads_compact _).bind (hcounted.map _)

/-! ## Elements and payloads -/

/-- An array element is read back by its kind alone. -/
theorem reads_element (h : below.ReadsBack ctx fits)
    (hv : fits.Value (fun structName spelled => spelled = shortName structName) kind v) :
    ∃ bytes, v.encodeElement ctx.tables ctx.charset kind = .ok bytes ∧ bytes ≠ [] ∧
      (bytes.length < 0x80000000 → Reads (below.readElement ctx.charset kind) bytes v.prune) := by
  cases hv with
  | byte b => exact ⟨_, rfl, List.cons_ne_nil _ _, fun _ => (reads_u8 b).map _⟩
  | int n => exact ⟨_, rfl, List.cons_ne_nil _ _, fun _ => (reads_i32 n).map _⟩
  | bool b =>
    have hr := (reads_u8 (if b then 1 else 0)).map fun x => PropertyValue.bool (x != 0)
    refine ⟨_, rfl, List.cons_ne_nil _ _, fun _ => ?_⟩
    cases b <;> exact hr
  | float x => exact ⟨_, rfl, List.cons_ne_nil _ _, fun _ => (reads_single x).map _⟩
  | object _ r | classRef r =>
    exact ⟨_, rfl, Encode.compact_ne_nil _, fun _ => (reads_compactRef r).map _⟩
  | name n => exact ⟨_, rfl, Encode.compact_ne_nil n, fun _ => (reads_compact n).map _⟩
  | str s =>
    refine ⟨Encode.text ctx.charset s, rfl, text_ne_nil _ s, fun hsize => ?_⟩
    exact (reads_text (storable_of_length hsize) (by omega)).map _
  | @array innerName _ innerSlots _ helements => exact reads_array innerName innerSlots h helements
  | struct htold hstruct =>
    subst htold
    obtain ⟨bytes, hbytes, hne, hr⟩ := reads_struct h hstruct
    refine ⟨bytes, ?_, hne, fun _ => hr⟩
    cases v <;> exact hbytes

/-- How the reader knows a struct matters for structs only. -/
theorem PropertyFits.Value.retold {told told' : String → String → Prop}
    (h : fits.Value told kind v) (hstruct : ∀ structName, kind ≠ .struct structName) :
    fits.Value told' kind v := by
  cases h with
  | struct => exact absurd rfl (hstruct _)
  | array helements => exact .array helements
  | _ => constructor

theorem PropertyKind.Told.none {t : Tables} (hstruct : ∀ structName, kind ≠ .struct structName) :
    kind.Told t none := by
  cases kind with
  | struct structName => exact absurd rfl (hstruct structName)
  | _ => rfl

theorem PropertyValue.encodeElement_of_ne_bool {t : Tables} {cs : Charset} (hbool : kind ≠ .bool) :
    v.encodeElement t cs kind = v.encode t cs kind := by
  cases kind with
  | bool => exact absurd rfl hbool
  | _ => rfl

/-- But for booleans and structs a payload is read like an array element. -/
theorem readPayload_eq_readElement {r : PropertyRecord} {cs : Charset} {mismatch : Error}
    (htag : PropertyTag.ofKind kind = .ok r.tag) (hbool : kind ≠ .bool)
    (hstruct : ∀ structName, kind ≠ .struct structName) :
    below.readPayload cs r kind mismatch = below.readElement cs kind := by
  obtain ⟨name, tag, flag, structName, slot, payload⟩ := r
  cases kind with
  | bool => exact absurd rfl hbool
  | struct structName => exact absurd rfl (hstruct structName)
  | delegate | pointer => cases htag
  | _ =>
    cases htag
    rfl

/-- The payload of a record is read back by what the record tells. -/
theorem reads_payload (slot : Nat) {tag : PropertyTag} (h : below.ReadsBack ctx fits)
    (hv : fits.Value (fun structName => ctx.tables.Spells (shortName structName)) kind v)
    (htag : PropertyTag.ofKind kind = .ok tag) : ∃ payload told,
    v.encode ctx.tables ctx.charset kind = .ok payload ∧ kind.Told ctx.tables told ∧
    (payload.length < 0x80000000 → ∀ r : PropertyRecord, r.tag = tag →
      r.flag = Encode.recordFlag tag slot v → r.structName = told → ∀ mismatch,
      Reads (below.readPayload ctx.charset r kind mismatch) payload v.prune) := by
  by_cases hstruct : ∃ structName, kind = .struct structName
  · obtain ⟨structName, rfl⟩ := hstruct
    obtain _ | _ | _ | _ | _ | _ | _ | _ | _ | ⟨hspells, hstruct⟩ := hv
    obtain ⟨bytes, hbytes, -, hr⟩ := reads_struct h hstruct
    refine ⟨bytes, _, hbytes, ⟨_, hspells, rfl⟩, fun _ r hrtag _ hrname mismatch => ?_⟩
    cases htag
    unfold PropertyReaders.readPayload
    rw [hrtag, hrname]
    exact hr
  · have hstruct : ∀ structName, kind ≠ .struct structName := fun s hs => hstruct ⟨s, hs⟩
    by_cases hbool : kind = .bool
    · subst hbool
      obtain _ | _ | b := hv
      cases htag
      refine ⟨[], none, rfl, rfl, fun _ r hrtag hrflag _ mismatch => ?_⟩
      unfold PropertyReaders.readPayload
      rw [hrtag, hrflag]
      exact .pure _
    · obtain ⟨bytes, hbytes, -, hr⟩ := reads_element h (hv.retold hstruct)
      rw [PropertyValue.encodeElement_of_ne_bool hbool] at hbytes
      refine ⟨bytes, none, hbytes, .none hstruct, fun hsize r hrtag _ _ mismatch => ?_⟩
      rw [readPayload_eq_readElement (hrtag ▸ htag) hbool hstruct]
      exact hr hsize

/-! ## Where a value goes -/

/-- A record sets one slot of its property to the value of its payload. -/
theorem PropertyReaders.fill_eq_ok_iff {cs : Charset} {scope : String} {r : PropertyRecord}
    {p p' : Property} : below.fill cs scope r p = .ok p' ↔
    ∃ expected v rest, PropertyTag.ofKind p.template.kind = .ok expected ∧
      r.tag.accepts expected = true ∧ 0 ≤ r.slot ∧ r.slot.toNat < p.values.length ∧
      below.readPayload cs r p.template.kind (.noTemplate p.template.name scope) r.payload =
        .ok (v, rest) ∧
      p' = { p with values := p.values.set r.slot.toNat (some v) } := by
  unfold PropertyReaders.fill
  constructor
  · intro h
    obtain ⟨expected, htag, h⟩ := except_bind_eq_ok.1 h
    obtain ⟨haccepts, h⟩ := except_refuse_eq_ok.1 h
    obtain ⟨hslot, h⟩ := except_refuse_eq_ok.1 h
    obtain ⟨⟨v, rest⟩, hv, h⟩ := except_bind_eq_ok.1 h
    have hlt : r.slot.toNat < p.values.length := by omega
    have hset : Property.set p r.slot.toNat v = .ok p' := h
    rw [Property.set, if_pos hlt] at hset
    cases hset
    exact ⟨expected, v, rest, htag, by simpa using haccepts, by omega, hlt, hv, rfl⟩
  · rintro ⟨expected, v, rest, htag, haccepts, hpos, hlt, hv, rfl⟩
    refine except_bind_eq_ok.2 ⟨expected, htag, except_refuse_eq_ok.2 ⟨by simp [haccepts], ?_⟩⟩
    refine except_refuse_eq_ok.2 ⟨by omega, except_bind_eq_ok.2 ⟨(v, rest), hv, ?_⟩⟩
    exact if_pos hlt

end UnrealPackage
