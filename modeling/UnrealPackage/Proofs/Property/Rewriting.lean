import UnrealPackage.Proofs.Property.Accepted
import UnrealPackage.Proofs.Property.RoundTrip
/-!
# Accepted property lists written again

A list that was read can be written, if the name table holds the short names of its structs. What is
read from the new bytes is the same list, if every record that is written tells the reader what the
one that was read told it: `RecordKept`.

A record is not always written as it was read. The reader takes the layout of a struct from the name
in the record; the writer derives that name from the template, and the layout from the value. If a
field of `Test.Foo` was read from a record that names `Vector`, the value is written in plain
numbers under the name `Foo`, and these are read as a property list.
-/

namespace UnrealPackage

/-! ## All slots of a list -/

mutual

/-- Whether `P` holds of every value that is in a slot of a property inside the value, with the kind
of that property. -/
def PropertyValue.EachSlot (P : PropertyKind → PropertyValue → Prop) : PropertyValue → Prop
  | .array elements => PropertyValue.EachSlotOfElements P elements
  | .struct fields => PropertyValue.EachSlotOfFields P fields
  | _ => True

def PropertyValue.EachSlotOfElements (P : PropertyKind → PropertyValue → Prop) :
    List PropertyValue → Prop
  | [] => True
  | v :: vs => v.EachSlot P ∧ PropertyValue.EachSlotOfElements P vs

/-- Whether `P` holds of every value that is in a slot of the properties, at every level. -/
def PropertyValue.EachSlotOfFields (P : PropertyKind → PropertyValue → Prop) :
    List (PropertyOf PropertyValue) → Prop
  | [] => True
  | ⟨_, template, values⟩ :: ps =>
    PropertyValue.EachSlotOfValues P template.kind values ∧ PropertyValue.EachSlotOfFields P ps

def PropertyValue.EachSlotOfValues (P : PropertyKind → PropertyValue → Prop)
    (kind : PropertyKind) : List (Option PropertyValue) → Prop
  | [] => True
  | none :: vs => PropertyValue.EachSlotOfValues P kind vs
  | some v :: vs => P kind v ∧ v.EachSlot P ∧ PropertyValue.EachSlotOfValues P kind vs

end

section

variable {P : PropertyKind → PropertyValue → Prop}

theorem PropertyValue.eachSlotOfElements_iff {vs : List PropertyValue} :
    PropertyValue.EachSlotOfElements P vs ↔ ∀ v ∈ vs, v.EachSlot P := by
  induction vs with
  | nil => simp [PropertyValue.EachSlotOfElements]
  | cons v vs ih => rw [PropertyValue.EachSlotOfElements, ih, List.forall_mem_cons]

/-- A property of values in slots is one of each value that is there, inside and out. -/
theorem PropertyValue.eachSlotOfValues_iff {kind : PropertyKind}
    {vs : List (Option PropertyValue)} :
    PropertyValue.EachSlotOfValues P kind vs ↔ ∀ v, some v ∈ vs → P kind v ∧ v.EachSlot P := by
  induction vs with
  | nil => simp [PropertyValue.EachSlotOfValues]
  | cons v vs ih =>
    cases v with
    | none => simp [PropertyValue.EachSlotOfValues, ih]
    | some v =>
      simp only [PropertyValue.EachSlotOfValues, ih, List.mem_cons, Option.some.injEq, ← and_assoc]
      constructor
      · rintro ⟨hv, hvs⟩ w (rfl | hw)
        · exact hv
        · exact hvs w hw
      · exact fun h => ⟨h v (.inl rfl), fun w hw => h w (.inr hw)⟩

/-- A property of values in fields is one of each value of each field, inside and out. -/
theorem PropertyValue.eachSlotOfFields_iff {ps : List Property} :
    PropertyValue.EachSlotOfFields P ps ↔
      ∀ p ∈ ps, ∀ v, some v ∈ p.values → P p.template.kind v ∧ v.EachSlot P := by
  induction ps with
  | nil => simp [PropertyValue.EachSlotOfFields]
  | cons p ps ih =>
    rw [List.forall_mem_cons, ← ih, ← PropertyValue.eachSlotOfValues_iff,
      PropertyValue.EachSlotOfFields]

end

/-- The value in a slot is one of the values. -/
theorem Property.mem_of_get? {p : Property} {slot : Nat} {v : PropertyValue}
    (h : p.get? slot = some v) : some v ∈ p.values := by
  rw [Property.get?, Option.join_eq_some_iff] at h
  exact List.mem_of_getElem? h

theorem Property.exists_get? {p : Property} {v : PropertyValue} (h : some v ∈ p.values) :
    ∃ slot, p.get? slot = some v := by
  obtain ⟨slot, hslot⟩ := List.mem_iff_getElem?.1 h
  exact ⟨slot, Option.join_eq_some_iff.2 hslot⟩

/-! ## What a record has to tell -/

/-- Whether the name table holds the name that a record for the kind tells. -/
def StructNamed (t : Tables) (kind : PropertyKind) (_ : PropertyValue) : Prop :=
  ∀ structName, kind = .struct structName → (t.nameIndex? (shortName structName)).isSome

/-- The plain struct that the value is written as. -/
def PropertyValue.plain? : PropertyValue → Option PlainStruct
  | .vector .. => some .vector
  | .rotator .. => some .rotator
  | .color .. => some .color
  | _ => none

/-- Whether the record that is written for the value tells the reader how it was written: the name
of a struct is spelled like that of the layout, and the size of the payload can be told. -/
structure RecordKept (ctx : PropertyContext) (kind : PropertyKind) (v : PropertyValue) : Prop where
  layout : ∀ structName, kind = .struct structName → ∃ spelled,
    ctx.tables.Spells (shortName structName) spelled ∧ PlainStruct.ofName? spelled = v.plain?
  short : ∀ payload, v.encode ctx.tables ctx.charset kind = .ok payload →
    payload.length < 0x80000000

variable {ctx : PropertyContext} {fits : PropertyFits} {kind : PropertyKind} {v : PropertyValue}
  {told : String → String → Prop} {scope : String}

/-- The layout of a struct is the one that its spelling asks for. -/
theorem PropertyFits.Struct.plain?_eq {structName spelled : String}
    (h : fits.Struct structName spelled v) : PlainStruct.ofName? spelled = v.plain? := by
  cases h with
  | vector hplain | rotator hplain | color hplain => exact hplain
  | list hplain _ => exact hplain

/-! ## An accepted list can be written -/

/-- Whether everything that fits can be written, if the structs are in the name table. -/
structure PropertyFits.Writable (ctx : PropertyContext) (fits : PropertyFits) : Prop where
  list : ∀ {scope ps}, fits.list scope ps →
    PropertyValue.EachSlotOfFields (StructNamed ctx.tables) ps →
    ∃ bytes, writeProperties ctx.tables ctx.charset ps = .ok bytes
  element : ∀ {kind v}, fits.element kind v → v.EachSlot (StructNamed ctx.tables) →
    ∃ bytes, v.encodeElement ctx.tables ctx.charset kind = .ok bytes

/-- A value of its kind can be written. -/
theorem exists_encode (h : fits.Writable ctx) (hv : fits.Value told kind v)
    (hnamed : v.EachSlot (StructNamed ctx.tables)) :
    ∃ bytes, v.encode ctx.tables ctx.charset kind = .ok bytes := by
  cases hv with
  | @array innerName inner innerSlots elements helements =>
    have hstored : ∀ vs : List PropertyValue, (∀ v ∈ vs, fits.element inner v) →
        PropertyValue.EachSlotOfElements (StructNamed ctx.tables) vs → ∃ bytes,
        PropertyValue.encodeElements ctx.tables ctx.charset inner vs = .ok bytes := by
      intro vs hvs hnamed
      induction vs with
      | nil => exact ⟨[], rfl⟩
      | cons v vs ih =>
        obtain ⟨front, hfront⟩ := h.element (hvs v List.mem_cons_self) hnamed.1
        obtain ⟨more, hmore⟩ := ih (fun v hv => hvs v (List.mem_cons_of_mem _ hv)) hnamed.2
        exact ⟨front ++ more, by rw [PropertyValue.encodeElements_cons, hfront, hmore]; rfl⟩
    obtain ⟨bytes, hbytes⟩ := hstored elements helements hnamed
    exact ⟨_, by rw [PropertyValue.encode, hbytes]; rfl⟩
  | struct htold hstruct =>
    cases hstruct with
    | list hplain hfields => exact h.list hfields hnamed
    | _ => exact ⟨_, rfl⟩
  | _ => exact ⟨_, rfl⟩

/-- A boolean takes a byte as an array element, other values are written as in a record. -/
theorem exists_encodeElement (h : fits.Writable ctx) (hv : fits.Value told kind v)
    (hnamed : v.EachSlot (StructNamed ctx.tables)) :
    ∃ bytes, v.encodeElement ctx.tables ctx.charset kind = .ok bytes := by
  by_cases hbool : kind = .bool
  · subst hbool
    cases hv
    exact ⟨_, rfl⟩
  · rw [PropertyValue.encodeElement_of_ne_bool hbool]
    exact exists_encode h hv hnamed

/-- A record can be written if the name of its struct can. -/
theorem exists_propertyRecord {t : Tables} (index : NameIndex) (tag : PropertyTag) (slot : Nat)
    (payload : List UInt8) (hnamed : StructNamed t kind v) :
    ∃ bytes, Encode.propertyRecord t index tag kind slot v payload = .ok bytes := by
  have hstruct : ∃ bytes, Encode.structNameIndex t kind = .ok bytes := by
    cases kind with
    | struct structName =>
      obtain ⟨i, hi⟩ := Option.isSome_iff_exists.1 (hnamed structName rfl)
      exact ⟨_, by rw [Encode.structNameIndex, Tables.nameIndex, hi]; rfl⟩
    | _ => exact ⟨[], rfl⟩
  obtain ⟨bytes, hbytes⟩ := hstruct
  exact ⟨_, by rw [Encode.propertyRecord, hbytes]; rfl⟩

/-- The records of slots can be written if the values in them can. -/
theorem exists_encodeSlots (t : Tables) (cs : Charset) (index : NameIndex) (tag : PropertyTag)
    {vs : List (Option PropertyValue)} (slot : Nat) (h : ∀ v, some v ∈ vs →
      StructNamed t kind v ∧ ∃ payload, v.encode t cs kind = .ok payload) :
    ∃ bytes, PropertyValue.encodeSlots t cs index tag kind slot vs = .ok bytes := by
  induction vs generalizing slot with
  | nil => exact ⟨[], rfl⟩
  | cons x vs ih =>
    obtain ⟨more, hmore⟩ := ih (slot + 1) fun v hv => h v (List.mem_cons_of_mem _ hv)
    cases x with
    | none => exact ⟨more, hmore⟩
    | some v =>
      obtain ⟨hnamed, payload, hpayload⟩ := h v List.mem_cons_self
      obtain ⟨front, hfront⟩ := exists_propertyRecord index tag slot payload hnamed
      refine ⟨front ++ more, ?_⟩
      rw [PropertyValue.encodeSlots, hpayload, except_ok_bind, hfront, except_ok_bind, hmore]
      rfl

/-- Accepted properties can be written in a row. -/
theorem exists_encodeFields {ps : List Property} (h : fits.Writable ctx)
    (hps : ∀ p ∈ ps, fits.AcceptedProperty ctx scope p)
    (hnamed : PropertyValue.EachSlotOfFields (StructNamed ctx.tables) ps) :
    ∃ bytes, PropertyValue.encodeFields ctx.tables ctx.charset ps = .ok bytes := by
  rw [PropertyValue.eachSlotOfFields_iff] at hnamed
  induction ps with
  | nil => exact ⟨[], rfl⟩
  | cons p ps ih =>
    have hp := hps p List.mem_cons_self
    obtain ⟨tag, htag⟩ := PropertyReaders.exists_ofKind hp.kind
    obtain ⟨spelled, hspells⟩ := hp.field.named
    obtain ⟨index, hindex, -, -⟩ := hspells.exists_index
    obtain ⟨front, hfront⟩ := exists_encodeSlots ctx.tables ctx.charset index tag 0 fun v hv => by
      obtain ⟨hstruct, hinside⟩ := hnamed p List.mem_cons_self v hv
      obtain ⟨slot, hslot⟩ := Property.exists_get? hv
      exact ⟨hstruct, exists_encode h (hp.value slot v hslot).2.2 hinside⟩
    obtain ⟨more, hmore⟩ := ih (fun q hq => hps q (List.mem_cons_of_mem p hq))
      fun q hq => hnamed q (List.mem_cons_of_mem p hq)
    refine ⟨front ++ more, ?_⟩
    rw [PropertyValue.encodeFields, htag, except_ok_bind, hindex, except_ok_bind, hfront,
      except_ok_bind, hmore]
    rfl

/-- What the reader accepts can be written. -/
theorem PropertyFits.writable_accepted (ctx : PropertyContext) (levels : Nat) :
    (PropertyFits.accepted ctx levels).Writable ctx := by
  induction levels with
  | zero => exact ⟨fun h => h.elim, fun h => h.elim⟩
  | succ levels ih =>
    constructor
    · rintro scope ps ⟨hps, spelled, hspells⟩ hnamed
      obtain ⟨records, hrecords⟩ := exists_encodeFields ih hps.each hnamed
      obtain ⟨ending, hending, -⟩ := PropertyReaders.reads_ending hspells
      exact ⟨records ++ ending, by rw [writeProperties, hrecords, except_ok_bind, hending]; rfl⟩
    · exact fun hv hnamed => exists_encodeElement ih hv hnamed

/-! ## An accepted list has nothing to prune -/

/-- Whether nothing that fits has a property of which no slot is set. -/
structure PropertyFits.Filled (fits : PropertyFits) : Prop where
  list : ∀ {scope ps}, fits.list scope ps → PropertyValue.pruneFields ps = ps
  element : ∀ {kind v}, fits.element kind v → v.prune = v

/-- A value of which every property is set somewhere loses nothing when it is pruned. -/
theorem prune_eq_self (h : fits.Filled) (hv : fits.Value told kind v) : v.prune = v := by
  cases hv with
  | @array innerName inner innerSlots elements helements =>
    have hsame : ∀ vs : List PropertyValue, (∀ v ∈ vs, fits.element inner v) →
        PropertyValue.pruneElements vs = vs := by
      intro vs hvs
      induction vs with
      | nil => rfl
      | cons v vs ih =>
        rw [PropertyValue.pruneElements, h.element (hvs v List.mem_cons_self),
          ih fun v hv => hvs v (List.mem_cons_of_mem _ hv)]
    rw [PropertyValue.prune, hsame elements helements]
  | struct htold hstruct =>
    cases hstruct with
    | list hplain hfields => rw [PropertyValue.prune, h.list hfields]
    | _ => rfl
  | _ => rfl

/-- Properties of which each is set somewhere lose nothing when they are pruned. -/
theorem pruneFields_eq_self {ps : List Property} (h : fits.Filled)
    (hps : ∀ p ∈ ps, fits.AcceptedProperty ctx scope p) :
    PropertyValue.pruneFields ps = ps := by
  induction ps with
  | nil => rfl
  | cons p ps ih =>
    have hp := hps p List.mem_cons_self
    have hvalues : PropertyValue.pruneSlots p.values = p.values := by
      rw [PropertyValue.pruneSlots_eq_map]
      refine (List.map_congr_left fun x hx => ?_).trans (List.map_id p.values)
      cases x with
      | none => rfl
      | some v =>
        obtain ⟨slot, hslot⟩ := Property.exists_get? hx
        exact congrArg some (prune_eq_self h (hp.value slot v hslot).2.2)
    obtain ⟨ownName, template, values⟩ := p
    rw [PropertyValue.pruneFields, if_pos hp.filled, hvalues,
      ih fun q hq => hps q (List.mem_cons_of_mem _ hq)]

/-- The reader accepts no property of which no slot is set. -/
theorem PropertyFits.filled_accepted (ctx : PropertyContext) (levels : Nat) :
    (PropertyFits.accepted ctx levels).Filled := by
  induction levels with
  | zero => exact ⟨fun h => h.elim, fun h => h.elim⟩
  | succ levels ih =>
    exact ⟨fun ⟨hps, _⟩ => pruneFields_eq_self ih hps.each, fun hv => prune_eq_self ih hv⟩

/-! ## An accepted list whose records are kept is well-formed -/

/-- Whether everything that fits, and whose records are kept, is well-formed. -/
structure PropertyFits.Refines (ctx : PropertyContext) (fits fits' : PropertyFits) : Prop where
  list : ∀ {scope ps}, fits.list scope ps →
    PropertyValue.EachSlotOfFields (RecordKept ctx) ps → fits'.list scope ps
  element : ∀ {kind v}, fits.element kind v → v.EachSlot (RecordKept ctx) → fits'.element kind v

variable {fits' : PropertyFits} {told' : String → String → Prop}

/-- A value is one of its kind for the reader that is told how it was written. -/
theorem PropertyFits.Value.refine (h : fits.Refines ctx fits') (hv : fits.Value told kind v)
    (hkept : v.EachSlot (RecordKept ctx))
    (htold : ∀ structName, kind = .struct structName → ∃ spelled, told' structName spelled ∧
      PlainStruct.ofName? spelled = v.plain?) : fits'.Value told' kind v := by
  cases hv with
  | array helements =>
    exact .array fun v hv => h.element (helements v hv)
      (PropertyValue.eachSlotOfElements_iff.1 hkept v hv)
  | struct _ hstruct =>
    obtain ⟨spelled, htold', hplain⟩ := htold _ rfl
    refine .struct htold' ?_
    cases hstruct with
    | vector _ => exact .vector hplain
    | rotator _ => exact .rotator hplain
    | color _ => exact .color hplain
    | list _ hfields => exact .list hplain (h.list hfields hkept)
  | _ => constructor

/-- A property that is accepted is well-formed if its records are kept. -/
theorem PropertyFits.AcceptedProperty.refine {p : UnrealPackage.Property}
    (h : fits.Refines ctx fits') (hp : fits.AcceptedProperty ctx scope p)
    (hkept : ∀ v, some v ∈ p.values →
      RecordKept ctx p.template.kind v ∧ v.EachSlot (RecordKept ctx)) :
    fits'.Property ctx scope p where
  name_eq := hp.field.name_eq
  slots := hp.field.slots
  field := hp.field.field
  ne_none := hp.field.ne_none
  named := hp.field.named
  kind := hp.kind
  value := by
    intro slot v hv
    obtain ⟨hslot, hbool, hvalue⟩ := hp.value slot v hv
    obtain ⟨hrecord, hinside⟩ := hkept v (Property.mem_of_get? hv)
    exact ⟨hslot, hbool, hvalue.refine h hinside hrecord.layout, hrecord.short⟩

/-- What the reader accepts is well-formed where its records are kept. -/
theorem PropertyFits.refines_accepted (ctx : PropertyContext) (levels : Nat) :
    (PropertyFits.accepted ctx levels).Refines ctx (PropertyFits.ofLevels ctx levels) := by
  induction levels with
  | zero => exact ⟨fun h => h.elim, fun h => h.elim⟩
  | succ levels ih =>
    constructor
    · rintro scope ps ⟨hps, hnone⟩ hkept
      rw [PropertyValue.eachSlotOfFields_iff] at hkept
      exact ⟨fun p hp => (hps.each p hp).refine ih (hkept p hp),
        List.pairwise_map.1 hps.distinct, hnone⟩
    · intro kind v hv hkept
      refine PropertyFits.Value.refine ih hv hkept ?_
      rintro structName rfl
      cases hv with
      | struct htold hstruct => exact ⟨_, htold, hstruct.plain?_eq⟩

/-! ## The list is read again -/

/-- A property list that was read can be written, if the name table holds the short names of its
structs. If every record that is written for it tells the reader how it was written, reading takes
exactly the bytes of the new list and gives the same properties, whatever follows. -/
theorem readProperties_rewritten {ps : List Property} {input rest : List UInt8}
    (h : readProperties ctx scope input = .ok (ps, rest))
    (hnamed : PropertyValue.EachSlotOfFields (StructNamed ctx.tables) ps) :
    ∃ bytes, writeProperties ctx.tables ctx.charset ps = .ok bytes ∧
      (PropertyValue.EachSlotOfFields (RecordKept ctx) ps →
        ∀ more, readProperties ctx scope (bytes ++ more) = .ok (ps, more)) := by
  have haccepted := readProperties_accepted h
  obtain ⟨bytes, hbytes⟩ := (PropertyFits.writable_accepted ctx _).list haccepted hnamed
  refine ⟨bytes, hbytes, fun hkept => ?_⟩
  have hfits := (PropertyFits.refines_accepted ctx _).list haccepted hkept
  obtain ⟨bytes', hbytes', -, hread⟩ := (PropertyReaders.ReadsBack.ofLevels ctx _).list hfits
  rw [(PropertyFits.filled_accepted ctx _).list haccepted] at hread
  cases hbytes.symm.trans hbytes'
  exact hread

/-- A reader for one field of a struct `Test.Foo`, with a name table that holds `Vector` as well. -/
def PropertyContext.oneStruct : PropertyContext where
  tables := ⟨"Test", [⟨"None", 0⟩, ⟨"P", 0⟩, ⟨"Foo", 0⟩, ⟨"Vector", 0⟩], [], []⟩
  schema := fun _ => .ok [⟨"P", .struct "Test.Foo", 1⟩]
  charset := .windows1252

/-- A list of one record for that field, with twelve zeros as its payload and the name of the struct
at an index. -/
def oneStructRecord (structName : UInt8) : List UInt8 :=
  [1, 0x3A, structName, 0, 0, 0, 0, 0, 0, 0, 0, 0, 0, 0, 0, 0]

/-- The field with a value. -/
def oneStruct (v : PropertyValue) : List Property :=
  [⟨"P", ⟨"P", .struct "Test.Foo", 1⟩, [some v]⟩]

/-- A record that names the struct of the template. -/
theorem readProperties_rewritten_foo :
    readProperties .oneStruct "Test.Thing" (oneStructRecord 2) = .ok (oneStruct (.struct []), []) ∧
      ∃ bytes, writeProperties PropertyContext.oneStruct.tables .windows1252
          (oneStruct (.struct [])) = .ok bytes ∧
        ∀ more, readProperties .oneStruct "Test.Thing" (bytes ++ more) =
          .ok (oneStruct (.struct []), more) := by
  have hread : readProperties .oneStruct "Test.Thing" (oneStructRecord 2) =
      .ok (oneStruct (.struct []), []) := rfl
  have hnamed : StructNamed PropertyContext.oneStruct.tables (.struct "Test.Foo") (.struct []) := by
    rintro structName ⟨⟩
    decide
  have hkept : RecordKept .oneStruct (.struct "Test.Foo") (.struct []) := by
    constructor
    · rintro structName ⟨⟩
      exact ⟨"Foo", ⟨2, by decide, by decide, rfl⟩, by decide⟩
    · rintro payload ⟨⟩
      decide
  obtain ⟨bytes, hbytes, hback⟩ :=
    readProperties_rewritten hread ⟨⟨hnamed, trivial, trivial⟩, trivial⟩
  exact ⟨hread, bytes, hbytes, hback ⟨⟨hkept, trivial, trivial⟩, trivial⟩⟩

/-- A record that names another struct, with plain numbers, is written under the name of the
template's struct; and the numbers are read as an empty list then. -/
theorem readProperties_rewritten_vector :
    PropertyValue.EachSlotOfFields (StructNamed PropertyContext.oneStruct.tables)
        (oneStruct (.vector ⟨0⟩ ⟨0⟩ ⟨0⟩)) ∧
      readProperties .oneStruct "Test.Thing" (oneStructRecord 3) =
        .ok (oneStruct (.vector ⟨0⟩ ⟨0⟩ ⟨0⟩), []) ∧
      writeProperties PropertyContext.oneStruct.tables .windows1252
        (oneStruct (.vector ⟨0⟩ ⟨0⟩ ⟨0⟩)) = .ok (oneStructRecord 2) ∧
      readProperties .oneStruct "Test.Thing" (oneStructRecord 2) =
        .ok (oneStruct (.struct []), []) ∧
      oneStruct (.struct []) ≠ oneStruct (.vector ⟨0⟩ ⟨0⟩ ⟨0⟩) := by
  refine ⟨⟨⟨?_, trivial, trivial⟩, trivial⟩, rfl, rfl, rfl, ?_⟩
  · rintro structName ⟨⟩
    decide
  · intro h
    cases h

end UnrealPackage
