import UnrealPackage.Proofs.Property.Values
/-!
# What the property reader accepts

`readProperties_accepted`: what is known of a property list because it was read. Its properties are
fields of the owner, of different names that stand in the name table; each has a slot that is set,
and its values have the shape of their kind. Little more than `WellFormedProperties` asks for is
missing. A record names its struct itself, so nothing is known of how the name that will be written
is spelled (`fun _ _ => True` below); and nothing is known of the sizes of payloads that were not
read but will be written.

The invariant is that of the loop over the records, in which a record sets one slot of a property
that was read already, or of one that is added for it.
-/

namespace UnrealPackage

open Decode

/-! ## Names -/

/-- A name that was found by an index can be written: the first entry that bears it does not stand
behind the one that was found. -/
theorem Tables.spells_of_name {t : Tables} {index : NameIndex} {stored name : String}
    (h : t.name index = .ok stored) (hsame : sameName stored name = true) :
    ∃ spelled, t.Spells name spelled := by
  obtain ⟨hpos, e, hentry, rfl⟩ := Tables.name_eq_ok_iff.1 h
  obtain ⟨hlt, rfl⟩ := List.getElem?_eq_some_iff.1 hentry
  cases hfind : t.nameIndex? name with
  | none =>
    have hall := List.findIdx?_eq_none_iff.1 hfind _ (List.getElem_mem hlt)
    rw [hsame] at hall
    cases hall
  | some i =>
    obtain ⟨hi, -, hfirst⟩ := List.findIdx?_eq_some_iff_getElem.1 hfind
    have hle : i ≤ index.toInt.toNat := by
      rcases Nat.lt_or_ge index.toInt.toNat i with hbefore | hle
      · exact absurd hsame (hfirst _ hbefore)
      · exact hle
    have hindex := index.toInt_lt
    refine ⟨t.names[i].name, i, hfind, by omega, ?_⟩
    rw [List.getElem?_eq_getElem hi]
    rfl

/-! ## Records -/

/-- What is known of a record that was read. -/
structure PropertyRecord.Stored (t : Tables) (r : PropertyRecord) : Prop where
  named : ∃ index, t.name index = .ok r.name
  ne_none : sameName r.name noneName = false
  slot_lt : r.slot < 0x80000000
  slot_bool : r.tag = .bool → r.slot = 0

namespace Decode

/-- The slot of a record is a number of 32 bits, and the first one for booleans. -/
theorem recordSlot_eq_ok {tag : PropertyTag} {flag : Bool} {slot : Int} {input rest : List UInt8}
    (h : recordSlot tag flag input = .ok (slot, rest)) :
    slot < 0x80000000 ∧ (tag = .bool → slot = 0) := by
  unfold recordSlot at h
  split at h
  · next hflag =>
    obtain ⟨n, -, rfl⟩ := map_eq_ok.1 h
    refine ⟨n.toInt_lt, fun htag => ?_⟩
    rw [htag] at hflag
    simp at hflag
  · obtain ⟨rfl, -⟩ := pure_eq_ok.1 h
    exact ⟨by decide, fun _ => rfl⟩

/-- A record is read up to its payload, or is the end of the list. -/
theorem propertyRecord_eq_ok {t : Tables} {found : Option PropertyRecord} {input rest : List UInt8}
    (h : propertyRecord t input = .ok (found, rest)) :
    match found with
    | some r => r.Stored t
    | none => ∃ index name, t.name index = .ok name ∧ sameName name noneName = true := by
  obtain ⟨index, m₁, -, h⟩ := bind_eq_ok.1 h
  obtain ⟨name, hname, h⟩ := stateT_lift_bind_eq_ok.1 h
  split at h
  · next hnone =>
    obtain ⟨rfl, -⟩ := pure_eq_ok.1 h
    exact ⟨index, name, hname, hnone⟩
  · next hnone =>
    obtain ⟨info, m₂, -, h⟩ := bind_eq_ok.1 h
    obtain ⟨structName, m₃, -, h⟩ := bind_eq_ok.1 h
    obtain ⟨size, m₄, -, h⟩ := bind_eq_ok.1 h
    obtain ⟨slot, m₅, hslot, h⟩ := bind_eq_ok.1 h
    obtain ⟨payload, m₆, -, h⟩ := bind_eq_ok.1 h
    obtain ⟨rfl, -⟩ := pure_eq_ok.1 h
    obtain ⟨hlt, hbool⟩ := recordSlot_eq_ok hslot
    exact ⟨⟨index, hname⟩, Bool.eq_false_iff.2 hnone, hlt, hbool⟩

end Decode

/-! ## Values -/

variable {ctx : PropertyContext} {below : PropertyReaders} {fits : PropertyFits}
  {kind : PropertyKind} {v : PropertyValue} {input rest : List UInt8}

/-- Whether the readers give only what `fits` allows. -/
structure PropertyReaders.Accepts (below : PropertyReaders) (fits : PropertyFits) : Prop where
  list : ∀ {scope input ps rest}, below.list scope input = .ok (ps, rest) → fits.list scope ps
  element : ∀ {kind input v rest}, below.element kind input = .ok (v, rest) → fits.element kind v

/-- A plain struct is read as its numbers. -/
theorem plainStruct_eq_ok {plain : PlainStruct} (h : plainStruct plain input = .ok (v, rest)) :
    match plain with
    | .vector => ∃ x y z, v = .vector x y z
    | .rotator => ∃ pitch yaw roll, v = .rotator pitch yaw roll
    | .color => ∃ b g r a, v = .color b g r a := by
  cases plain with
  | vector =>
    obtain ⟨x, m₁, -, h⟩ := bind_eq_ok.1 h
    obtain ⟨y, m₂, -, h⟩ := bind_eq_ok.1 h
    obtain ⟨z, m₃, -, h⟩ := bind_eq_ok.1 h
    obtain ⟨rfl, -⟩ := pure_eq_ok.1 h
    exact ⟨x, y, z, rfl⟩
  | rotator =>
    obtain ⟨pitch, m₁, -, h⟩ := bind_eq_ok.1 h
    obtain ⟨yaw, m₂, -, h⟩ := bind_eq_ok.1 h
    obtain ⟨roll, m₃, -, h⟩ := bind_eq_ok.1 h
    obtain ⟨rfl, -⟩ := pure_eq_ok.1 h
    exact ⟨pitch, yaw, roll, rfl⟩
  | color =>
    obtain ⟨b, m₁, -, h⟩ := bind_eq_ok.1 h
    obtain ⟨g, m₂, -, h⟩ := bind_eq_ok.1 h
    obtain ⟨r, m₃, -, h⟩ := bind_eq_ok.1 h
    obtain ⟨a, m₄, -, h⟩ := bind_eq_ok.1 h
    obtain ⟨rfl, -⟩ := pure_eq_ok.1 h
    exact ⟨b, g, r, a, rfl⟩

/-- A struct that is read is stored as its spelling asks for. -/
theorem accepted_struct {structName spelled : String} (hbelow : below.Accepts fits)
    (h : (match PlainStruct.ofName? spelled with
      | some plain => plainStruct plain
      | none => PropertyValue.struct <$> below.list structName) input = .ok (v, rest)) :
    fits.Struct structName spelled v := by
  cases hplain : PlainStruct.ofName? spelled with
  | none =>
    rw [hplain] at h
    obtain ⟨fields, hfields, rfl⟩ := map_eq_ok.1 h
    exact .list hplain (hbelow.list hfields)
  | some plain =>
    rw [hplain] at h
    have hv := plainStruct_eq_ok h
    cases plain with
    | vector =>
      obtain ⟨x, y, z, rfl⟩ := hv
      exact .vector hplain
    | rotator =>
      obtain ⟨pitch, yaw, roll, rfl⟩ := hv
      exact .rotator hplain
    | color =>
      obtain ⟨b, g, r, a, rfl⟩ := hv
      exact .color hplain

/-- What is read a number of times has what is known of each. -/
theorem forall_of_times {α : Type} {item : Decode α} {P : α → Prop} {n : Nat} {as : List α}
    (hitem : ∀ {input a rest}, item input = .ok (a, rest) → P a)
    (h : times item n input = .ok (as, rest)) : ∀ a ∈ as, P a := by
  induction n generalizing input as rest with
  | zero =>
    obtain ⟨rfl, -⟩ := pure_eq_ok.1 h
    exact nofun
  | succ n ih =>
    obtain ⟨a, m₁, ha, h⟩ := bind_eq_ok.1 h
    obtain ⟨as', m₂, has, h⟩ := bind_eq_ok.1 h
    obtain ⟨rfl, -⟩ := pure_eq_ok.1 h
    exact List.forall_mem_cons.2 ⟨hitem ha, ih has⟩

/-- An array that is read has elements of its kind. -/
theorem accepted_elements (hbelow : below.Accepts fits)
    (h : below.elements kind input = .ok (v, rest)) :
    ∃ es, v = .array es ∧ ∀ e ∈ es, fits.element kind e := by
  obtain ⟨count, m, -, h⟩ := bind_eq_ok.1 h
  obtain ⟨es, hes, rfl⟩ := map_eq_ok.1 h
  exact ⟨es, rfl, forall_of_times hbelow.element hes⟩

/-- An array element that is read is one of its kind, stored as the struct's own name asks for. -/
theorem accepted_element {cs : Charset} (hbelow : below.Accepts fits)
    (h : below.readElement cs kind input = .ok (v, rest)) :
    fits.Value (fun structName spelled => spelled = shortName structName) kind v := by
  cases kind with
  | byte =>
    obtain ⟨b, -, rfl⟩ := map_eq_ok.1 h
    exact .byte b
  | int =>
    obtain ⟨n, -, rfl⟩ := map_eq_ok.1 h
    exact .int n
  | bool =>
    obtain ⟨b, -, rfl⟩ := map_eq_ok.1 h
    exact .bool _
  | float =>
    obtain ⟨x, -, rfl⟩ := map_eq_ok.1 h
    exact .float x
  | object className =>
    obtain ⟨r, -, rfl⟩ := map_eq_ok.1 h
    exact .object className r
  | classRef =>
    obtain ⟨r, -, rfl⟩ := map_eq_ok.1 h
    exact .classRef r
  | name =>
    obtain ⟨n, -, rfl⟩ := map_eq_ok.1 h
    exact .name n
  | str =>
    obtain ⟨s, -, rfl⟩ := map_eq_ok.1 h
    exact .str s
  | array innerName inner innerSlots =>
    obtain ⟨es, rfl, hes⟩ := accepted_elements hbelow h
    exact .array hes
  | struct structName => exact .struct rfl (accepted_struct hbelow h)
  | delegate | map | fixedArray | pointer => cases h

/-- A record of a type that a field accepts has the field's type, or both are references. -/
theorem PropertyTag.eq_or_reference_of_accepts {tag expected : PropertyTag}
    (h : tag.accepts expected = true) :
    tag = expected ∨
      (tag = .object ∨ tag = .classRef) ∧ (expected = .object ∨ expected = .classRef) := by
  simpa [PropertyTag.accepts] using h

/-- A record that fills a field of another type than references has the field's type. -/
theorem PropertyTag.eq_of_accepts {tag expected : PropertyTag}
    (h : tag.accepts expected = true) (hexpected : expected ≠ .object ∧ expected ≠ .classRef) :
    tag = expected := by
  rcases PropertyTag.eq_or_reference_of_accepts h with heq | ⟨-, hreference⟩
  · exact heq
  · exact absurd hreference (not_or.2 hexpected)

/-- But for booleans and structs a payload that a field accepts is read like an array element. -/
theorem readPayload_eq_readElement_of_accepts {r : PropertyRecord} {cs : Charset}
    {mismatch : Error} {tag : PropertyTag} (htag : PropertyTag.ofKind kind = .ok tag)
    (haccepts : r.tag.accepts tag = true) (hbool : kind ≠ .bool)
    (hstruct : ∀ structName, kind ≠ .struct structName) :
    below.readPayload cs r kind mismatch = below.readElement cs kind := by
  rcases PropertyTag.eq_or_reference_of_accepts haccepts with rfl | ⟨hr, hexpected⟩
  · exact readPayload_eq_readElement htag hbool hstruct
  · obtain ⟨name, tag', flag, structName, slot, payload⟩ := r
    cases kind with
    | object className | classRef => rcases hr with rfl | rfl <;> rfl
    | struct structName => exact absurd rfl (hstruct structName)
    | delegate | pointer => cases htag
    | _ =>
      cases htag
      rcases hexpected with h | h <;> cases h

/-- A payload that is read is a value of the field's kind. -/
theorem accepted_payload {r : PropertyRecord} {cs : Charset} {mismatch : Error} {tag : PropertyTag}
    (hbelow : below.Accepts fits) (htag : PropertyTag.ofKind kind = .ok tag)
    (haccepts : r.tag.accepts tag = true)
    (h : below.readPayload cs r kind mismatch input = .ok (v, rest)) :
    fits.Value (fun _ _ => True) kind v := by
  by_cases hstruct : ∃ structName, kind = .struct structName
  · obtain ⟨structName, rfl⟩ := hstruct
    cases htag
    have hr : r.tag = .struct := PropertyTag.eq_of_accepts haccepts (by decide)
    unfold PropertyReaders.readPayload at h
    rw [hr] at h
    exact .struct trivial (accepted_struct hbelow h)
  · have hstruct : ∀ structName, kind ≠ .struct structName := fun s hs => hstruct ⟨s, hs⟩
    by_cases hbool : kind = .bool
    · subst hbool
      cases htag
      have hr : r.tag = .bool := PropertyTag.eq_of_accepts haccepts (by decide)
      unfold PropertyReaders.readPayload at h
      rw [hr] at h
      obtain ⟨rfl, -⟩ := pure_eq_ok.1 h
      exact .bool r.flag
    · rw [readPayload_eq_readElement_of_accepts htag haccepts hbool hstruct] at h
      exact (accepted_element hbelow h).retold hstruct

/-! ## Properties -/

/-- Whether the property has the name and the slots of a field of `scope`, and a name that can be
written. -/
structure FieldOf (ctx : PropertyContext) (scope : String) (p : Property) : Prop where
  name_eq : p.name = p.template.name
  slots : p.values.length = p.template.slotCount
  field : ∃ fields, ctx.schema scope = .ok fields ∧
    fields.find? (fun f => sameName f.name p.name) = some p.template
  ne_none : sameName p.name noneName = false
  named : ∃ spelled, ctx.tables.Spells p.name spelled

namespace PropertyFits

/-- Whether the property is a field of `scope` with a slot that is set, and its values have the
shape of its kind. -/
structure AcceptedProperty (ctx : PropertyContext) (below : PropertyFits) (scope : String)
    (p : UnrealPackage.Property) : Prop where
  field : FieldOf ctx scope p
  kind : p.template.kind ≠ .delegate ∧ p.template.kind ≠ .pointer
  filled : p.values.any Option.isSome = true
  value : ∀ slot v, p.get? slot = some v →
    slot < 0x80000000 ∧ (p.template.kind = .bool → slot = 0) ∧
      below.Value (fun _ _ => True) p.template.kind v

/-- Whether the properties are such fields of `scope`, all of different names. -/
structure AcceptedRecords (ctx : PropertyContext) (below : PropertyFits) (scope : String)
    (ps : List UnrealPackage.Property) : Prop where
  each : ∀ p ∈ ps, below.AcceptedProperty ctx scope p
  distinct : (ps.map (·.name)).Pairwise fun a b => sameName a b = false

/-- A property takes the place of one of its name. -/
theorem AcceptedRecords.set {below : PropertyFits} {scope : String} {i : Nat}
    {done : List UnrealPackage.Property} {p : UnrealPackage.Property}
    (h : below.AcceptedRecords ctx scope done) (hlt : i < done.length)
    (hp : below.AcceptedProperty ctx scope p) (hname : p.name = done[i].name) :
    below.AcceptedRecords ctx scope (done.set i p) := by
  constructor
  · intro q hq
    rcases List.mem_or_eq_of_mem_set hq with hq | rfl
    · exact h.each q hq
    · exact hp
  · have hlt' : i < (done.map (·.name)).length := by rwa [List.length_map]
    have hget : (done.map (·.name))[i] = done[i].name := List.getElem_map _
    rw [List.map_set, hname, ← hget, List.set_getElem_self]
    exact h.distinct

/-- A property of a new name joins the others. -/
theorem AcceptedRecords.concat {below : PropertyFits} {scope : String}
    {done : List UnrealPackage.Property} {p : UnrealPackage.Property}
    (h : below.AcceptedRecords ctx scope done) (hp : below.AcceptedProperty ctx scope p)
    (hnew : ∀ q ∈ done, sameName q.name p.name = false) :
    below.AcceptedRecords ctx scope (done ++ [p]) := by
  constructor
  · intro q hq
    rcases List.mem_append.1 hq with hq | hq
    · exact h.each q hq
    · rwa [List.mem_singleton.1 hq]
  · rw [List.map_append, List.pairwise_append]
    refine ⟨h.distinct, List.pairwise_singleton _ _, fun a ha b hb => ?_⟩
    obtain ⟨q, hq, rfl⟩ := List.mem_map.1 ha
    rw [List.mem_singleton.1 hb]
    exact hnew q hq

/-- What is accepted with `levels` of nesting left. -/
def accepted (ctx : PropertyContext) : Nat → PropertyFits
  | 0 => { list := fun _ _ => False, element := fun _ _ => False }
  | levels + 1 => {
    list := fun scope ps => (accepted ctx levels).AcceptedRecords ctx scope ps ∧
      ∃ spelled, ctx.tables.Spells noneName spelled
    element := (accepted ctx levels).Value fun structName spelled =>
      spelled = shortName structName }

end PropertyFits

namespace PropertyReaders

variable {scope : String} {p p' : Property} {done done' : List Property} {r : PropertyRecord}

/-! ## One record -/

/-- The value in a slot was set last, or was there before. -/
theorem get?_of_get?_set {i slot : Nat} {w : PropertyValue}
    (h : Property.get? { p with values := p.values.set i (some v) } slot = some w) :
    slot = i ∧ w = v ∨ p.get? slot = some w := by
  rw [Property.get?, List.getElem?_set] at h
  split at h
  · next heq =>
    split at h
    · cases h
      exact .inl ⟨heq.symm, rfl⟩
    · cases h
  · exact .inr h

/-- A property with a record more is accepted, if it was before or has no slot set. -/
theorem accepted_fill {cs : Charset} (hbelow : below.Accepts fits) (hr : r.Stored ctx.tables)
    (hp : FieldOf ctx scope p) (hvalue : ∀ slot v, p.get? slot = some v →
      slot < 0x80000000 ∧ (p.template.kind = .bool → slot = 0) ∧
        fits.Value (fun _ _ => True) p.template.kind v)
    (h : below.fill cs scope r p = .ok p') :
    fits.AcceptedProperty ctx scope p' ∧ p'.name = p.name := by
  obtain ⟨tag, v, rest, htag, haccepts, hpos, hlt, hread, rfl⟩ := fill_eq_ok_iff.1 h
  have hv := accepted_payload hbelow htag haccepts hread
  refine ⟨⟨?_, ?_, ?_, ?_⟩, rfl⟩
  · exact { hp with slots := (List.length_set).trans hp.slots }
  · constructor
    · intro hkind
      rw [hkind] at htag
      cases htag
    · intro hkind
      rw [hkind] at htag
      cases htag
  · exact List.any_eq_true.2 ⟨some v, List.mem_set hlt _, rfl⟩
  · intro slot w hw
    rcases get?_of_get?_set hw with ⟨rfl, rfl⟩ | hw
    · refine ⟨?_, fun hkind => ?_, hv⟩
      · have hslot := hr.slot_lt
        omega
      · rw [hkind] at htag
        cases htag
        rw [hr.slot_bool (PropertyTag.eq_of_accepts haccepts (by decide))]
        rfl
    · exact hvalue slot w hw

/-- Nothing is in the slots of a property that is added. -/
theorem get?_empty (template : FieldTemplate) (slot : Nat) :
    (Property.empty template).get? slot = none := by
  rw [Property.get?, Property.empty, List.getElem?_replicate]
  split <;> rfl

/-- A property that a record adds is a field of the owner. -/
theorem fieldOf_empty {fields : List FieldTemplate} {template : FieldTemplate}
    (hr : r.Stored ctx.tables) (hschema : ctx.schema scope = .ok fields)
    (hfield : fields.find? (fun f => sameName f.name r.name) = some template) :
    FieldOf ctx scope (Property.empty template) := by
  have hsame : sameName template.name r.name = true := by
    simpa using List.find?_some hfield
  obtain ⟨index, hindex⟩ := hr.named
  refine ⟨rfl, List.length_replicate, ⟨fields, hschema, ?_⟩, ?_, ?_⟩
  · simp only [Property.empty, sameName_congr hsame]
    exact hfield
  · show sameName template.name noneName = false
    rw [sameName_comm, sameName_congr hsame, sameName_comm, hr.ne_none]
  · exact Tables.spells_of_name hindex (by rw [sameName_comm]; exact hsame)

/-- The properties with those of one more record are accepted as before. -/
theorem accepted_store (hbelow : below.Accepts fits) (hr : r.Stored ctx.tables)
    (hdone : fits.AcceptedRecords ctx scope done)
    (h : below.store ctx scope done r = .ok done') : fits.AcceptedRecords ctx scope done' := by
  obtain ⟨⟨i, placed⟩, hplace, h⟩ := except_bind_eq_ok.1 h
  unfold place at hplace
  split at hplace
  · next j hfind =>
    cases hplace
    obtain ⟨hlt, -, -⟩ := List.findIdx?_eq_some_iff_getElem.1 hfind
    simp only [List.getElem?_eq_getElem hlt] at h
    obtain ⟨p, hfill, h⟩ := except_bind_eq_ok.1 h
    cases h
    have hp := hdone.each _ (List.getElem_mem hlt)
    obtain ⟨hp', hname⟩ := accepted_fill hbelow hr hp.field hp.value hfill
    exact hdone.set hlt hp' hname
  · next hfind =>
    obtain ⟨fields, hschema, hplace⟩ := except_bind_eq_ok.1 hplace
    split at hplace
    · next template hfield =>
      cases hplace
      have hlast : (done ++ [Property.empty template])[done.length]? =
          some (Property.empty template) := by simp
      simp only [hlast] at h
      obtain ⟨p, hfill, h⟩ := except_bind_eq_ok.1 h
      cases h
      obtain ⟨hp, hname⟩ := accepted_fill hbelow hr (fieldOf_empty hr hschema hfield)
        (fun slot v hv => nomatch (get?_empty template slot).symm.trans hv) hfill
      rw [List.set_append_right _ _ (Nat.le_refl _), Nat.sub_self, List.set_cons_zero]
      refine hdone.concat hp fun q hq => ?_
      have hsame : sameName p.name r.name = true := by
        rw [hname]
        simpa [Property.empty] using List.find?_some hfield
      rw [sameName_congr hsame]
      exact List.findIdx?_eq_none_iff.1 hfind q hq
    · cases hplace

/-! ## Lists -/

/-- The loop over the records keeps what is known of the properties, and stops at a name that ends
lists. -/
theorem accepted_readRecords {bound : Nat} (hbelow : below.Accepts fits)
    (hdone : fits.AcceptedRecords ctx scope done)
    (h : below.readRecords ctx scope bound done input = .ok (done', rest)) :
    fits.AcceptedRecords ctx scope done' ∧ ∃ spelled, ctx.tables.Spells noneName spelled := by
  induction bound generalizing done input with
  | zero => cases h
  | succ bound ih =>
    obtain ⟨found, m, hfound, h⟩ := bind_eq_ok.1 h
    have hstored := propertyRecord_eq_ok hfound
    cases found with
    | none =>
      obtain ⟨rfl, -⟩ := pure_eq_ok.1 h
      obtain ⟨index, name, hname, hsame⟩ := hstored
      exact ⟨hdone, Tables.spells_of_name hname hsame⟩
    | some r =>
      obtain ⟨done₁, hstore, h⟩ := stateT_lift_bind_eq_ok.1 h
      exact ih (accepted_store hbelow hstored hdone hstore) h

/-- What is read with a number of levels left is accepted for as many. -/
theorem Accepts.ofLevels (ctx : PropertyContext) (levels : Nat) :
    (PropertyReaders.ofLevels ctx levels).Accepts (PropertyFits.accepted ctx levels) := by
  induction levels with
  | zero => exact ⟨nofun, nofun⟩
  | succ levels ih =>
    refine ⟨fun {scope input ps rest} h => ?_, fun h => accepted_element ih h⟩
    obtain ⟨input', m, hget, h⟩ := bind_eq_ok.1 h
    exact accepted_readRecords ih ⟨fun p hp => absurd hp List.not_mem_nil, .nil⟩ h

end PropertyReaders

/-- What is known of a property list that was read. -/
theorem readProperties_accepted {scope : String} {ps : List Property}
    (h : readProperties ctx scope input = .ok (ps, rest)) :
    (PropertyFits.accepted ctx (propertyNestingLimit + 1)).list scope ps :=
  (PropertyReaders.Accepts.ofLevels ctx _).list h

end UnrealPackage
