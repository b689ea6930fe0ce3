import UnrealPackage.Proofs.Property.Rewriting
/-!
# What the writer refuses

The writer looks at the kind of a field and at the value, and at nothing else: it takes a boolean in
any slot, and for a struct any layout. `exists_writeProperties_iff` says exactly which lists are
written. A value fits (`FitsTemplate`) if a reader would find it there again; what the writer takes
and does not fit is of two sorts, `Strays`, and a list without them is written or refused as it
should be (`writeProperties_refuses`).

`PropertyValue.EachField` goes through all values of a list, with their places, as the writer does;
the proofs go through a list and its values at once, one case for each of their constructors.
-/

namespace UnrealPackage

/-! ## All values of a list -/

/-- Where a value stands: in a slot of a property, or in an array. -/
inductive ValuePlace
  | slot (index : Nat)
  | element
deriving DecidableEq, Repr

/-- The kind of the elements of an array. -/
def PropertyKind.inner : PropertyKind → PropertyKind
  | .array _ inner _ => inner
  | kind => kind

section

variable (Q : Property → Prop) (P : ValuePlace → PropertyKind → PropertyValue → Prop)

mutual

/-- Whether `Q` holds of every property inside the value, and `P` of every value, with its place and
its kind. -/
def PropertyValue.EachInside (kind : PropertyKind) : PropertyValue → Prop
  | .array elements => PropertyValue.EachElement kind.inner elements
  | .struct fields => PropertyValue.EachField fields
  | _ => True

def PropertyValue.EachElement (kind : PropertyKind) : List PropertyValue → Prop
  | [] => True
  | v :: vs => (P .element kind v ∧ v.EachInside kind) ∧ PropertyValue.EachElement kind vs

/-- Whether `Q` holds of the properties and `P` of the values in their slots, at every level. -/
def PropertyValue.EachField : List (PropertyOf PropertyValue) → Prop
  | [] => True
  | ⟨ownName, template, values⟩ :: ps =>
    (Q ⟨ownName, template, values⟩ ∧ PropertyValue.EachFieldSlot template.kind 0 values) ∧
      PropertyValue.EachField ps

def PropertyValue.EachFieldSlot (kind : PropertyKind) (slot : Nat) :
    List (Option PropertyValue) → Prop
  | [] => True
  | none :: vs => PropertyValue.EachFieldSlot kind (slot + 1) vs
  | some v :: vs =>
    (P (.slot slot) kind v ∧ v.EachInside kind) ∧ PropertyValue.EachFieldSlot kind (slot + 1) vs

end

end

section

variable {Q Q' Q'' : Property → Prop}
  {P P' P'' : ValuePlace → PropertyKind → PropertyValue → Prop}

mutual

/-- What follows from two conditions at each property and value follows from the two for all. -/
theorem PropertyValue.EachInside.imp (hQ : ∀ p, Q p → Q' p → Q'' p)
    (hP : ∀ place kind v, P place kind v → P' place kind v → P'' place kind v)
    (kind : PropertyKind) : ∀ v : PropertyValue,
      v.EachInside Q P kind → v.EachInside Q' P' kind → v.EachInside Q'' P'' kind
  | .array elements => PropertyValue.EachElement.imp hQ hP kind.inner elements
  | .struct fields => PropertyValue.EachField.imp hQ hP fields
  | .byte _ | .int _ | .bool _ | .float _ | .object _ | .name _ | .str _ | .vector .. | .rotator ..
  | .color .. => fun _ _ => trivial

/-- Of each element both properties hold if each of them does. -/
theorem PropertyValue.EachElement.imp (hQ : ∀ p, Q p → Q' p → Q'' p)
    (hP : ∀ place kind v, P place kind v → P' place kind v → P'' place kind v)
    (kind : PropertyKind) : ∀ vs : List PropertyValue,
      PropertyValue.EachElement Q P kind vs → PropertyValue.EachElement Q' P' kind vs →
        PropertyValue.EachElement Q'' P'' kind vs
  | [] => fun _ _ => trivial
  | v :: vs => fun h h' =>
    ⟨⟨hP _ _ _ h.1.1 h'.1.1, PropertyValue.EachInside.imp hQ hP kind v h.1.2 h'.1.2⟩,
      PropertyValue.EachElement.imp hQ hP kind vs h.2 h'.2⟩

/-- Inside each field both properties hold if each of them does. -/
theorem PropertyValue.EachField.imp (hQ : ∀ p, Q p → Q' p → Q'' p)
    (hP : ∀ place kind v, P place kind v → P' place kind v → P'' place kind v) :
    ∀ ps : List (PropertyOf PropertyValue), PropertyValue.EachField Q P ps →
      PropertyValue.EachField Q' P' ps → PropertyValue.EachField Q'' P'' ps
  | [] => fun _ _ => trivial
  | ⟨_, template, values⟩ :: ps => fun h h' =>
    ⟨⟨hQ _ h.1.1 h'.1.1,
      PropertyValue.EachFieldSlot.imp hQ hP template.kind 0 values h.1.2 h'.1.2⟩,
      PropertyValue.EachField.imp hQ hP ps h.2 h'.2⟩

/-- Inside each slot both properties hold if each of them does. -/
theorem PropertyValue.EachFieldSlot.imp (hQ : ∀ p, Q p → Q' p → Q'' p)
    (hP : ∀ place kind v, P place kind v → P' place kind v → P'' place kind v)
    (kind : PropertyKind) (slot : Nat) : ∀ vs : List (Option PropertyValue),
      PropertyValue.EachFieldSlot Q P kind slot vs →
        PropertyValue.EachFieldSlot Q' P' kind slot vs →
          PropertyValue.EachFieldSlot Q'' P'' kind slot vs
  | [] => fun _ _ => trivial
  | none :: vs => PropertyValue.EachFieldSlot.imp hQ hP kind (slot + 1) vs
  | some v :: vs => fun h h' =>
    ⟨⟨hP _ _ _ h.1.1 h'.1.1, PropertyValue.EachInside.imp hQ hP kind v h.1.2 h'.1.2⟩,
      PropertyValue.EachFieldSlot.imp hQ hP kind (slot + 1) vs h.2 h'.2⟩

end

end

/-! ## What the writer takes -/

/-- Whether the writer takes the value for a field of the kind: for structs it takes every layout,
and it does not look at the place of a boolean. -/
inductive PropertyKind.Takes : PropertyKind → PropertyValue → Prop
  | byte (b : UInt8) : Takes .byte (.byte b)
  | int (n : Int32) : Takes .int (.int n)
  | bool (b : Bool) : Takes .bool (.bool b)
  | float (x : Single) : Takes .float (.float x)
  | object (className : String) (r : ObjectRef) : Takes (.object className) (.object r)
  | classRef (r : ObjectRef) : Takes .classRef (.object r)
  | name (n : NameIndex) : Takes .name (.name n)
  | str (s : String) : Takes .str (.str s)
  | array (innerName : String) (inner : PropertyKind) (innerSlots : UInt32)
    (elements : List PropertyValue) : Takes (.array innerName inner innerSlots) (.array elements)
  | vector (structName : String) (x y z : Single) : Takes (.struct structName) (.vector x y z)
  | rotator (structName : String) (pitch yaw roll : Int32) :
    Takes (.struct structName) (.rotator pitch yaw roll)
  | color (structName : String) (b g r a : UInt8) : Takes (.struct structName) (.color b g r a)
  | struct (structName : String) (fields : List Property) :
    Takes (.struct structName) (.struct fields)

/-- Whether the property has a type and a name that can be written. -/
structure WritableProperty (t : Tables) (p : Property) : Prop where
  kind : p.template.kind ≠ .delegate ∧ p.template.kind ≠ .pointer
  named : (t.nameIndex? p.name).isSome

/-- Whether the value can be written in its place. A record tells the name of a struct. -/
def WritableValue (t : Tables) (place : ValuePlace) (kind : PropertyKind) (v : PropertyValue) :
    Prop :=
  kind.Takes v ∧ (place ≠ .element → StructNamed t kind v)

variable {t : Tables} {cs : Charset} {kind : PropertyKind} {v : PropertyValue}

/-- An element can be written if it can be written as a value. -/
theorem exists_encodeElement_iff :
    (∃ bytes, v.encodeElement t cs kind = .ok bytes) ↔ ∃ bytes, v.encode t cs kind = .ok bytes := by
  by_cases hbool : kind = .bool
  · subst hbool
    cases v with
    | bool b => exact ⟨fun _ => ⟨_, rfl⟩, fun _ => ⟨_, rfl⟩⟩
    | _ => rfl
  · rw [PropertyValue.encodeElement_of_ne_bool hbool]

/-- What is written fits its kind, as far as the writer looks. -/
theorem takes_of_encode {bytes : List UInt8} (h : v.encode t cs kind = .ok bytes) :
    kind.Takes v := by
  -- of all pairs only those with a layout are not refused
  cases v <;> cases kind <;> first | constructor | cases h

/-- What is written for an array is written for its elements. -/
theorem exists_encode_array_iff {innerName : String} {inner : PropertyKind} {innerSlots : UInt32}
    {elements : List PropertyValue} :
    (∃ bytes, (PropertyValue.array elements).encode t cs (.array innerName inner innerSlots) =
      .ok bytes) ↔ ∃ bytes, PropertyValue.encodeElements t cs inner elements = .ok bytes := by
  simp only [PropertyValue.encode, except_bind_eq_ok]
  constructor
  · rintro ⟨-, stored, hstored, -⟩
    exact ⟨stored, hstored⟩
  · rintro ⟨stored, hstored⟩
    exact ⟨_, stored, hstored, rfl⟩

theorem exists_propertyListEnd (hnone : (t.nameIndex? noneName).isSome) :
    ∃ ending, Encode.propertyListEnd t = .ok ending := by
  obtain ⟨i, hi⟩ := Option.isSome_iff_exists.1 hnone
  exact ⟨_, by rw [Encode.propertyListEnd, Tables.nameIndex, hi]; rfl⟩

/-- What is written for a list is written for its properties. -/
theorem exists_encode_struct_iff (hnone : (t.nameIndex? noneName).isSome) {structName : String}
    {fields : List Property} :
    (∃ bytes, (PropertyValue.struct fields).encode t cs (.struct structName) = .ok bytes) ↔
      ∃ bytes, PropertyValue.encodeFields t cs fields = .ok bytes := by
  obtain ⟨ending, hending⟩ := exists_propertyListEnd hnone
  simp only [PropertyValue.encode, except_bind_eq_ok]
  constructor
  · rintro ⟨-, records, hrecords, -⟩
    exact ⟨records, hrecords⟩
  · rintro ⟨records, hrecords⟩
    exact ⟨_, records, hrecords, ending, hending, rfl⟩

/-- A record is written if the name of its struct is known. -/
theorem exists_propertyRecord_iff {index : NameIndex} {tag : PropertyTag} {slot : Nat}
    {payload : List UInt8} :
    (∃ bytes, Encode.propertyRecord t index tag kind slot v payload = .ok bytes) ↔
      StructNamed t kind v := by
  constructor
  · rintro ⟨bytes, h⟩ structName rfl
    obtain ⟨_, hstruct, -⟩ := except_bind_eq_ok.1 h
    rw [Encode.structNameIndex, Tables.nameIndex] at hstruct
    cases hindex : t.nameIndex? (shortName structName) with
    | some i => rfl
    | none =>
      rw [hindex] at hstruct
      cases hstruct
  · exact exists_propertyRecord index tag slot payload

/-- A name has an index exactly if it is in the table. -/
theorem exists_nameIndex_iff {name : String} :
    (∃ index, t.nameIndex name = .ok index) ↔ (t.nameIndex? name).isSome := by
  unfold Tables.nameIndex
  cases t.nameIndex? name with
  | some i => exact ⟨fun _ => rfl, fun _ => ⟨_, rfl⟩⟩
  | none => exact ⟨nofun, nofun⟩

/-- Every kind has a tag, except for delegates and pointers. -/
theorem exists_ofKind_iff :
    (∃ tag, PropertyTag.ofKind kind = .ok tag) ↔ kind ≠ .delegate ∧ kind ≠ .pointer := by
  constructor
  · rintro ⟨tag, h⟩
    constructor <;> rintro rfl <;> cases h
  · exact PropertyReaders.exists_ofKind

mutual

/-- A value is written exactly when the writer takes it and all that is inside it. -/
theorem exists_encode_iff (hnone : (t.nameIndex? noneName).isSome) (kind : PropertyKind) :
    ∀ v : PropertyValue, (∃ bytes, v.encode t cs kind = .ok bytes) ↔
      kind.Takes v ∧ v.EachInside (WritableProperty t) (WritableValue t) kind
  | .array elements => by
    have helements := exists_encodeElements_iff hnone kind.inner elements
    constructor
    · rintro ⟨bytes, h⟩
      obtain _ | _ | _ | _ | _ | _ | _ | _ | ⟨innerName, inner, innerSlots⟩ := takes_of_encode h
      exact ⟨.array .., helements.1 (exists_encode_array_iff.1 ⟨bytes, h⟩)⟩
    · rintro ⟨⟨innerName, inner, innerSlots⟩, h⟩
      exact exists_encode_array_iff.2 (helements.2 h)
  | .struct fields => by
    have hfields := exists_encodeFields_iff hnone fields
    constructor
    · rintro ⟨bytes, h⟩
      cases takes_of_encode h
      exact ⟨.struct .., hfields.1 ((exists_encode_struct_iff hnone).1 ⟨bytes, h⟩)⟩
    · rintro ⟨⟨structName⟩, h⟩
      exact (exists_encode_struct_iff hnone).2 (hfields.2 h)
  | .byte _ | .int _ | .bool _ | .float _ | .object _ | .name _ | .str _ | .vector .. | .rotator ..
  | .color .. => by
    constructor
    · rintro ⟨bytes, h⟩
      exact ⟨takes_of_encode h, trivial⟩
    · rintro ⟨⟨⟩, -⟩ <;> exact ⟨_, rfl⟩

/-- Elements can be written exactly if each of them is writable. -/
theorem exists_encodeElements_iff (hnone : (t.nameIndex? noneName).isSome) (kind : PropertyKind) :
    ∀ vs : List PropertyValue, (∃ bytes, PropertyValue.encodeElements t cs kind vs = .ok bytes) ↔
      PropertyValue.EachElement (WritableProperty t) (WritableValue t) kind vs
  | [] => ⟨fun _ => trivial, fun _ => ⟨[], rfl⟩⟩
  | v :: vs => by
    have hv := (exists_encodeElement_iff (t := t)).trans (exists_encode_iff hnone kind v)
    have hvs := exists_encodeElements_iff hnone kind vs
    simp only [PropertyValue.encodeElements_cons, except_bind_eq_ok]
    constructor
    · rintro ⟨bytes, front, hfront, more, hmore, -⟩
      obtain ⟨htakes, hinside⟩ := hv.1 ⟨front, hfront⟩
      exact ⟨⟨⟨htakes, fun hplace => absurd rfl hplace⟩, hinside⟩, hvs.1 ⟨more, hmore⟩⟩
    · rintro ⟨⟨⟨htakes, -⟩, hinside⟩, h⟩
      obtain ⟨front, hfront⟩ := hv.2 ⟨htakes, hinside⟩
      obtain ⟨more, hmore⟩ := hvs.2 h
      exact ⟨front ++ more, front, hfront, more, hmore, rfl⟩

/-- Properties can be written exactly if each of them is writable. -/
theorem exists_encodeFields_iff (hnone : (t.nameIndex? noneName).isSome) :
    ∀ ps : List (PropertyOf PropertyValue),
      (∃ bytes, PropertyValue.encodeFields t cs ps = .ok bytes) ↔
        PropertyValue.EachField (WritableProperty t) (WritableValue t) ps
  | [] => ⟨fun _ => trivial, fun _ => ⟨[], rfl⟩⟩
  | ⟨ownName, template, values⟩ :: ps => by
    have hvalues := fun index tag => exists_encodeSlots_iff hnone index tag template.kind 0 values
    have hps := exists_encodeFields_iff hnone ps
    simp only [PropertyValue.encodeFields, except_bind_eq_ok]
    constructor
    · rintro ⟨bytes, tag, htag, index, hindex, records, hrecords, rest, hrest, -⟩
      have hproperty : WritableProperty t ⟨ownName, template, values⟩ :=
        ⟨exists_ofKind_iff.1 ⟨tag, htag⟩, exists_nameIndex_iff.1 ⟨index, hindex⟩⟩
      exact ⟨⟨hproperty, (hvalues index tag).1 ⟨records, hrecords⟩⟩, hps.1 ⟨rest, hrest⟩⟩
    · rintro ⟨⟨⟨hkind, hnamed⟩, hslots⟩, h⟩
      obtain ⟨tag, htag⟩ := exists_ofKind_iff.2 hkind
      obtain ⟨index, hindex⟩ := exists_nameIndex_iff.2 hnamed
      obtain ⟨records, hrecords⟩ := (hvalues index tag).2 hslots
      obtain ⟨rest, hrest⟩ := hps.2 h
      exact ⟨_, tag, htag, index, hindex, records, hrecords, rest, hrest, rfl⟩

/-- Slots can be written exactly if the value in each of them is writable. -/
theorem exists_encodeSlots_iff (hnone : (t.nameIndex? noneName).isSome) (index : NameIndex)
    (tag : PropertyTag) (kind : PropertyKind) (slot : Nat) :
    ∀ vs : List (Option PropertyValue),
      (∃ bytes, PropertyValue.encodeSlots t cs index tag kind slot vs = .ok bytes) ↔
        PropertyValue.EachFieldSlot (WritableProperty t) (WritableValue t) kind slot vs
  | [] => ⟨fun _ => trivial, fun _ => ⟨[], rfl⟩⟩
  | none :: vs => exists_encodeSlots_iff hnone index tag kind (slot + 1) vs
  | some v :: vs => by
    have hv := exists_encode_iff hnone kind v
    have hvs := exists_encodeSlots_iff hnone index tag kind (slot + 1) vs
    simp only [PropertyValue.encodeSlots, except_bind_eq_ok]
    constructor
    · rintro ⟨bytes, payload, hpayload, record, hrecord, rest, hrest, -⟩
      obtain ⟨htakes, hinside⟩ := hv.1 ⟨payload, hpayload⟩
      have hnamed := exists_propertyRecord_iff.1 ⟨record, hrecord⟩
      exact ⟨⟨⟨htakes, fun _ => hnamed⟩, hinside⟩, hvs.1 ⟨rest, hrest⟩⟩
    · rintro ⟨⟨⟨htakes, hnamed⟩, hinside⟩, h⟩
      obtain ⟨payload, hpayload⟩ := hv.2 ⟨htakes, hinside⟩
      obtain ⟨record, hrecord⟩ := exists_propertyRecord_iff.2 (hnamed nofun)
      obtain ⟨rest, hrest⟩ := hvs.2 h
      exact ⟨_, payload, hpayload, record, hrecord, rest, hrest, rfl⟩

end

/-- A list is written exactly when its end has a name and all that is in it can be written. -/
theorem exists_writeProperties_iff {ps : List Property} :
    (∃ bytes, writeProperties t cs ps = .ok bytes) ↔ (t.nameIndex? noneName).isSome ∧
      PropertyValue.EachField (WritableProperty t) (WritableValue t) ps := by
  simp only [writeProperties, except_bind_eq_ok]
  constructor
  · rintro ⟨bytes, records, hrecords, ending, hending, -⟩
    have hnone : (t.nameIndex? noneName).isSome := by
      obtain ⟨index, hindex, -⟩ := except_bind_eq_ok.1 hending
      exact exists_nameIndex_iff.1 ⟨index, hindex⟩
    exact ⟨hnone, (exists_encodeFields_iff hnone ps).1 ⟨records, hrecords⟩⟩
  · rintro ⟨hnone, h⟩
    obtain ⟨records, hrecords⟩ := (exists_encodeFields_iff hnone ps).2 h
    obtain ⟨ending, hending⟩ := exists_propertyListEnd hnone
    exact ⟨_, records, hrecords, ending, hending, rfl⟩

/-! ## What fits -/

/-- Whether the value fits a field of the kind in its place: the kinds agree, a boolean stands in
the first slot or in an array, and a struct has the layout that its short name asks for. -/
inductive FitsTemplate : ValuePlace → PropertyKind → PropertyValue → Prop
  | byte (place : ValuePlace) (b : UInt8) : FitsTemplate place .byte (.byte b)
  | int (place : ValuePlace) (n : Int32) : FitsTemplate place .int (.int n)
  | bool (b : Bool) : FitsTemplate (.slot 0) .bool (.bool b)
  | boolElement (b : Bool) : FitsTemplate .element .bool (.bool b)
  | float (place : ValuePlace) (x : Single) : FitsTemplate place .float (.float x)
  | object (place : ValuePlace) (className : String) (r : ObjectRef) :
    FitsTemplate place (.object className) (.object r)
  | classRef (place : ValuePlace) (r : ObjectRef) : FitsTemplate place .classRef (.object r)
  | name (place : ValuePlace) (n : NameIndex) : FitsTemplate place .name (.name n)
  | str (place : ValuePlace) (s : String) : FitsTemplate place .str (.str s)
  | array (place : ValuePlace) (innerName : String) (inner : PropertyKind) (innerSlots : UInt32)
    (elements : List PropertyValue) :
    FitsTemplate place (.array innerName inner innerSlots) (.array elements)
  | plain (place : ValuePlace) {structName : String} {plain : PlainStruct} {v : PropertyValue}
    (hname : PlainStruct.ofName? (shortName structName) = some plain)
    (hv : v.plain? = some plain) : FitsTemplate place (.struct structName) v
  | list (place : ValuePlace) {structName : String} (fields : List Property)
    (hname : PlainStruct.ofName? (shortName structName) = none) :
    FitsTemplate place (.struct structName) (.struct fields)

/-- Whether the value is of one of the two sorts that the writer takes and the reader will not find:
a boolean beyond the first slot, which no record can tell, or a struct in a layout that is not the
one of its name. -/
inductive Strays : ValuePlace → PropertyKind → PropertyValue → Prop
  | bool {slot : Nat} (hslot : 0 < slot) (v : PropertyValue) : Strays (.slot slot) .bool v
  | layout (place : ValuePlace) {structName : String} {v : PropertyValue}
    (hplain : PlainStruct.ofName? (shortName structName) ≠ v.plain?) :
    Strays place (.struct structName) v

/-- A value fits its template exactly if the kind takes it and it is not one that strays. -/
theorem fitsTemplate_iff {place : ValuePlace} :
    FitsTemplate place kind v ↔ kind.Takes v ∧ ¬Strays place kind v := by
  constructor
  · intro h
    cases h with
    | bool b =>
      refine ⟨.bool b, ?_⟩
      intro hstrays
      cases hstrays with
      | bool hslot _ => exact Nat.lt_irrefl 0 hslot
    | plain place hname hv =>
      refine ⟨?_, ?_⟩
      · cases v <;> first | constructor | cases hv
      · intro hstrays
        cases hstrays with
        | layout _ hplain => exact hplain (hname.trans hv.symm)
    | list place fields hname =>
      refine ⟨.struct _ fields, ?_⟩
      intro hstrays
      cases hstrays with
      | layout _ hplain => exact hplain hname
    | _ => exact ⟨by constructor, nofun⟩
  · rintro ⟨htakes, hstays⟩
    have hlayout : ∀ structName, kind = .struct structName →
        PlainStruct.ofName? (shortName structName) = v.plain? := by
      rintro structName rfl
      exact Classical.not_not.1 fun hplain => hstays (.layout place hplain)
    cases htakes with
    | bool b =>
      cases place with
      | element => exact .boolElement b
      | slot index =>
        cases index with
        | zero => exact .bool b
        | succ index => exact absurd (.bool (Nat.succ_pos index) _) hstays
    | vector | rotator | color => exact .plain place (hlayout _ rfl) rfl
    | struct structName fields => exact .list place fields (hlayout _ rfl)
    | _ => constructor

/-- Whether values of the property can be stored at all. -/
def Serialised (p : Property) : Prop :=
  p.template.kind ≠ .delegate ∧ p.template.kind ≠ .pointer

/-- A list whose names are known is written exactly when the writer takes all of its values. What it
does not refuse though it does not fit has a value that strays: without one, every list that does
not fit is refused; and every list that fits is written. -/
theorem writeProperties_refuses {ps : List Property}
    (hnone : (t.nameIndex? noneName).isSome)
    (hnamed : PropertyValue.EachField (fun p => (t.nameIndex? p.name).isSome)
      (fun place kind v => place ≠ .element → StructNamed t kind v) ps) (cs : Charset) :
    ((∃ bytes, writeProperties t cs ps = .ok bytes) ↔
      PropertyValue.EachField Serialised (fun _ kind v => kind.Takes v) ps) ∧
    (PropertyValue.EachField (fun _ => True) (fun place kind v => ¬Strays place kind v) ps →
      ¬PropertyValue.EachField (fun _ => True) FitsTemplate ps →
        ∃ e, writeProperties t cs ps = .error e) ∧
    (PropertyValue.EachField Serialised FitsTemplate ps →
      ∃ bytes, writeProperties t cs ps = .ok bytes) := by
  have hwritten : (∃ bytes, writeProperties t cs ps = .ok bytes) ↔
      PropertyValue.EachField Serialised (fun _ kind v => kind.Takes v) ps := by
    rw [exists_writeProperties_iff]
    constructor
    · rintro ⟨-, h⟩
      exact PropertyValue.EachField.imp (fun p hp _ => hp.kind) (fun _ _ _ hv _ => hv.1) ps h h
    · intro h
      exact ⟨hnone, PropertyValue.EachField.imp (fun p hname hkind => ⟨hkind, hname⟩)
        (fun _ _ _ hname htakes => ⟨htakes, hname⟩) ps hnamed h⟩
  refine ⟨hwritten, fun hstays hunfit => ?_, fun hfits => ?_⟩
  · cases hwrite : writeProperties t cs ps with
    | error e => exact ⟨e, rfl⟩
    | ok bytes =>
      have htakes := hwritten.1 ⟨bytes, hwrite⟩
      exact absurd (PropertyValue.EachField.imp (fun _ _ _ => trivial)
        (fun _ _ _ htakes hstays => fitsTemplate_iff.2 ⟨htakes, hstays⟩) ps htakes hstays) hunfit
  · exact hwritten.2 (PropertyValue.EachField.imp (fun _ hkind _ => hkind)
      (fun _ _ _ hfits _ => (fitsTemplate_iff.1 hfits).1) ps hfits hfits)

/-- A table for a flag of two slots and a vector. -/
def flagTables : Tables :=
  ⟨"P", [⟨"None", 0⟩, ⟨"Flag", 0⟩, ⟨"Spot", 0⟩, ⟨"Vector", 0⟩], [], []⟩

/-- The flag with its slots. -/
def flag (values : List (Option PropertyValue)) : Property :=
  ⟨"Flag", ⟨"Flag", .bool, 2⟩, values⟩

/-- The vector with a value. -/
def spot (v : PropertyValue) : Property :=
  ⟨"Spot", ⟨"Spot", .struct "Core.Object.Vector", 1⟩, [some v]⟩

theorem structNamed_spot (v : PropertyValue) :
    StructNamed flagTables (.struct "Core.Object.Vector") v := by
  rintro structName ⟨⟩
  decide

/-- A flag and a vector are written, a number in the place of the flag is refused. -/
theorem writeProperties_refuses_number :
    (∃ bytes, writeProperties flagTables .windows1252
      [flag [some (.bool true), none], spot (.vector ⟨1⟩ ⟨2⟩ ⟨3⟩)] = .ok bytes) ∧
    ∃ e, writeProperties flagTables .windows1252 [flag [some (.int 1), none]] = .error e := by
  constructor
  · have hnamed : PropertyValue.EachField (fun p => (flagTables.nameIndex? p.name).isSome)
        (fun place kind v => place ≠ .element → StructNamed flagTables kind v)
        [flag [some (.bool true), none], spot (.vector ⟨1⟩ ⟨2⟩ ⟨3⟩)] :=
      ⟨⟨by decide, ⟨fun _ => nofun, trivial⟩, trivial⟩,
        ⟨by decide, ⟨fun _ => structNamed_spot _, trivial⟩, trivial⟩, trivial⟩
    have hfits : PropertyValue.EachField Serialised FitsTemplate
        [flag [some (.bool true), none], spot (.vector ⟨1⟩ ⟨2⟩ ⟨3⟩)] :=
      ⟨⟨⟨nofun, nofun⟩, ⟨.bool true, trivial⟩, trivial⟩,
        ⟨⟨nofun, nofun⟩, ⟨.plain _ (by decide) rfl, trivial⟩, trivial⟩, trivial⟩
    exact (writeProperties_refuses (by decide) hnamed .windows1252).2.2 hfits
  · have hnamed : PropertyValue.EachField (fun p => (flagTables.nameIndex? p.name).isSome)
        (fun place kind v => place ≠ .element → StructNamed flagTables kind v)
        [flag [some (.int 1), none]] :=
      ⟨⟨by decide, ⟨fun _ => nofun, trivial⟩, trivial⟩, trivial⟩
    have hstays : PropertyValue.EachField (fun _ => True)
        (fun place kind v => ¬Strays place kind v) [flag [some (.int 1), none]] := by
      refine ⟨⟨trivial, ⟨?_, trivial⟩, trivial⟩, trivial⟩
      rintro ⟨hslot⟩
      exact Nat.lt_irrefl 0 hslot
    refine (writeProperties_refuses (by decide) hnamed .windows1252).2.1 hstays ?_
    rintro ⟨⟨-, ⟨⟨⟩, -⟩, -⟩, -⟩

/-- A reader for the flag and the vector. -/
def PropertyContext.flags : PropertyContext where
  tables := flagTables
  schema := fun _ => .ok [⟨"Flag", .bool, 2⟩, ⟨"Spot", .struct "Core.Object.Vector", 1⟩]
  charset := .windows1252

/-- A boolean in the second slot is written, and read back from the first one; and whole numbers
are written for a vector, and read back as its coordinates. -/
theorem writeProperties_refuses_strays :
    ¬PropertyValue.EachField (fun _ => True) FitsTemplate [flag [none, some (.bool true)]] ∧
      (∃ bytes, writeProperties flagTables .windows1252 [flag [none, some (.bool true)]] =
        .ok bytes ∧ readProperties .flags "Thing" bytes =
          .ok ([flag [some (.bool true), none]], [])) ∧
      ¬PropertyValue.EachField (fun _ => True) FitsTemplate [spot (.rotator 1 2 3)] ∧
      ∃ bytes, writeProperties flagTables .windows1252 [spot (.rotator 1 2 3)] = .ok bytes ∧
        readProperties .flags "Thing" bytes = .ok ([spot (.vector ⟨1⟩ ⟨2⟩ ⟨3⟩)], []) := by
  refine ⟨?_, ⟨_, rfl, rfl⟩, ?_, ⟨_, rfl, rfl⟩⟩
  · rintro ⟨⟨-, ⟨⟨⟩, -⟩, -⟩, -⟩
  · rintro ⟨⟨-, ⟨hfits, -⟩, -⟩, -⟩
    have hstays := (fitsTemplate_iff.1 hfits).2
    exact hstays (.layout _ (by decide))

end UnrealPackage
