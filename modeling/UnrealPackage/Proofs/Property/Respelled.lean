import Mathlib.Data.List.Forall2
import UnrealPackage.Proofs.Property.Agree
import UnrealPackage.Proofs.Property.Order
import UnrealPackage.Proofs.Property.Rewriting
/-!
# Names in another spelling

The reader of a property list takes names from the name table: to see where a list ends, to find the
template of a property and the property itself, and to see whether a struct is stored in plain
numbers. The first three compare without regard to case, the last one does not. So two name tables
that differ in spelling only are read the same (`agree_readProperties`), if they spell the plain
structs the same way; and if they do not, there is a list that the two read differently
(`exists_readProperties_ne`).
-/

namespace UnrealPackage

open Decode PropertyReaders

variable {t t' : Tables} {ctx : PropertyContext} {cs : Charset} {scope : String}

/-- Whether two name tables are as long as each other and have the same names, up to case. -/
def Tables.Respelled (t t' : Tables) : Prop :=
  List.Forall₂ (fun e e' => sameName e.name e'.name = true) t.names t'.names

/-- Whether the names at each index are spelled like the same plain struct, or both like none. -/
def Tables.SameLayouts (t t' : Tables) : Prop :=
  ∀ index name name', t.name index = .ok name → t'.name index = .ok name' →
    PlainStruct.ofName? name = PlainStruct.ofName? name'

/-- It is enough to compare the tables entry by entry. -/
theorem Tables.SameLayouts.of_forall₂ (h : List.Forall₂ (fun e e' : NameEntry =>
    PlainStruct.ofName? e.name = PlainStruct.ofName? e'.name) t.names t'.names) :
    t.SameLayouts t' := by
  obtain ⟨-, hsame⟩ := List.forall₂_iff_get.1 h
  intro index name name' hname hname'
  obtain ⟨-, e, he, rfl⟩ := Tables.name_eq_ok_iff.1 hname
  obtain ⟨-, e', he', rfl⟩ := Tables.name_eq_ok_iff.1 hname'
  obtain ⟨hlt, rfl⟩ := List.getElem?_eq_some_iff.1 he
  obtain ⟨hlt', rfl⟩ := List.getElem?_eq_some_iff.1 he'
  exact hsame _ hlt hlt'

/-! ## One record -/

/-- An index has the same name in both tables, up to case. -/
theorem Tables.Respelled.agree_name (h : t.Respelled t') (index : NameIndex) :
    Agree (fun name name' => sameName name name' = true) (t.name index) (t'.name index) := by
  obtain ⟨hlength, hsame⟩ := List.forall₂_iff_get.1 h
  unfold Tables.name
  rw [hlength]
  by_cases hnonneg : 0 ≤ index.toInt
  · simp only [if_pos hnonneg]
    by_cases hlt : index.toInt.toNat < t.names.length
    · rw [List.getElem?_eq_getElem hlt, List.getElem?_eq_getElem (hlength ▸ hlt)]
      exact .ok (hsame _ hlt (hlength ▸ hlt))
    · rw [List.getElem?_eq_none (by omega), List.getElem?_eq_none (by omega)]
      exact .error (.refl _)
  · simp only [if_neg hnonneg]
    exact .error (.refl _)

/-- The other table has a name at every index that one has a name at. -/
theorem Tables.Respelled.exists_name (h : t.Respelled t') {index : NameIndex} {name : String}
    (hname : t.name index = .ok name) :
    ∃ name', t'.name index = .ok name' ∧ sameName name name' = true := by
  have hagree := h.agree_name index
  rw [hname] at hagree
  generalize hname' : t'.name index = found at hagree
  cases hagree with
  | ok hsame => exact ⟨_, rfl, hsame⟩

/-- Whether two records differ at most in the spelling of their names, and announce the same
layout. -/
structure PropertyRecord.Respelled (r r' : PropertyRecord) : Prop where
  name : sameName r.name r'.name = true
  tag : r.tag = r'.tag
  flag : r.flag = r'.flag
  layout : PlainStruct.ofName? (r.structName.getD "") =
    PlainStruct.ofName? (r'.structName.getD "")
  slot : r.slot = r'.slot
  payload : r.payload = r'.payload

/-- The name of a struct has the same layout in both tables. -/
theorem agree_structName (h : t.Respelled t') (hlayouts : t.SameLayouts t') (tag : PropertyTag) :
    Decode.Agree
      (fun a a' => PlainStruct.ofName? (a.getD "") = PlainStruct.ofName? (a'.getD ""))
      (structName t tag) (structName t' tag) := by
  unfold structName
  split
  · refine .bind_left _ fun index => ?_
    have hname : Agree (fun name name' => PlainStruct.ofName? name = PlainStruct.ofName? name')
        (t.name index) (t'.name index) := (h.agree_name index).imp (hlayouts index)
    exact (Decode.Agree.lift hname).map fun _ _ hplain => hplain
  · exact .pure rfl

/-- Records are read alike with both tables, up to the case of their names. -/
theorem agree_propertyRecord (h : t.Respelled t') (hlayouts : t.SameLayouts t') :
    Decode.Agree (Option.Rel PropertyRecord.Respelled) (propertyRecord t) (propertyRecord t') := by
  refine .bind_left _ fun index => (Decode.Agree.lift (h.agree_name index)).bind ?_
  intro name name' hname
  have hnone : sameName name noneName = sameName name' noneName := by
    rw [sameName_comm, sameName_congr hname, sameName_comm]
  rw [hnone]
  split
  · exact .pure .none
  · refine .bind_left _ fun info => (agree_structName h hlayouts _).bind ?_
    intro told told' htold
    refine .bind_left _ fun size => .bind_left _ fun slot => .bind_left _ fun payload => ?_
    exact .pure (.some ⟨hname, rfl, rfl, htold, rfl, rfl⟩)

/-! ## Values -/

namespace PropertyReaders

/-- Whether the readers of what may be nested agree. -/
structure Agrees (below below' : PropertyReaders) : Prop where
  list : ∀ scope, Decode.Agree Eq (below.list scope) (below'.list scope)
  element : ∀ kind, Decode.Agree Eq (below.element kind) (below'.element kind)

variable {below below' : PropertyReaders}

theorem Agrees.elements (h : Agrees below below') (inner : PropertyKind) :
    Decode.Agree Eq (below.elements inner) (below'.elements inner) :=
  .bind_left _ fun count => ((h.element inner).times count.toInt.toNat).map fun _ _ => congrArg _

theorem Agrees.struct (h : Agrees below below') (structName : String) :
    Decode.Agree Eq (PropertyValue.struct <$> below.list structName)
      (PropertyValue.struct <$> below'.list structName) :=
  (h.list structName).map fun _ _ => congrArg _

/-- Elements are read alike where the levels below are. -/
theorem Agrees.readElement (h : Agrees below below') (kind : PropertyKind) :
    Decode.Agree Eq (readElement cs below kind) (readElement cs below' kind) := by
  cases kind with
  | array innerName inner innerSlots => exact h.elements inner
  | struct structName =>
    unfold PropertyReaders.readElement
    dsimp only
    split
    · exact .refl _
    · exact h.struct structName
  | _ => exact .refl _

/-- Payloads are read alike where the levels below are. -/
theorem Agrees.readPayload (h : Agrees below below') {r r' : PropertyRecord}
    (hr : r.Respelled r') (kind : PropertyKind) (mismatch : Error) :
    Decode.Agree Eq (readPayload cs below r kind mismatch)
      (readPayload cs below' r' kind mismatch) := by
  unfold PropertyReaders.readPayload
  rw [← hr.tag, ← hr.flag, ← hr.layout]
  split
  case h_9 =>
    split
    · exact h.elements _
    · exact .refl _
  case h_10 =>
    split
    · exact .refl _
    · split
      · exact h.struct _
      · exact .refl _
  all_goals exact .refl _

/-! ## Lists -/

/-- A property is filled in alike where the levels below are. -/
theorem Agrees.fill (h : Agrees below below') {r r' : PropertyRecord} (hr : r.Respelled r')
    (p : Property) : Agree Eq (fill cs below scope r p) (fill cs below' scope r' p) := by
  unfold PropertyReaders.fill
  rw [← hr.tag, ← hr.slot, ← hr.payload]
  refine (Agree.refl _).bind ?_
  rintro expected _ rfl
  dsimp only
  split
  · exact .error (.refl _)
  · split
    · exact .error (.refl _)
    · refine (h.readPayload hr p.template.kind _ r.payload).bind ?_
      rintro ⟨v, rest⟩ ⟨v', rest'⟩ ⟨hv, -⟩
      cases hv
      exact .refl _

/-- Only the error tells by which spelling a property was looked for. -/
theorem agree_place {name name' : String} (hname : sameName name name' = true)
    (schema : SchemaResolver) (done : List Property) :
    Agree Eq (place schema scope name done) (place schema scope name' done) := by
  unfold place
  simp only [sameName_congr hname]
  split
  · exact .refl _
  · refine (Agree.refl _).bind ?_
    rintro fields _ rfl
    split
    · exact .refl _
    · exact .error (.property hname)

variable {schema : SchemaResolver}

/-- A record is stored alike where the levels below are. -/
theorem Agrees.store (h : Agrees below below') {r r' : PropertyRecord} (hr : r.Respelled r')
    (done : List Property) : Agree Eq (store ⟨t, schema, cs⟩ below scope done r)
      (store ⟨t', schema, cs⟩ below' scope done r') := by
  refine (agree_place hr.name schema done).bind ?_
  rintro ⟨i, placed⟩ _ rfl
  dsimp only
  split
  · refine (h.fill hr _).bind ?_
    rintro p _ rfl
    exact .refl _
  · exact .refl _

/-- Records are read alike where the levels below are. -/
theorem Agrees.readRecords (h : Agrees below below') (ht : t.Respelled t')
    (hlayouts : t.SameLayouts t') (bound : Nat) (done : List Property) :
    Decode.Agree Eq (readRecords ⟨t, schema, cs⟩ below scope bound done)
      (readRecords ⟨t', schema, cs⟩ below' scope bound done) := by
  induction bound generalizing done with
  | zero => exact .refl _
  | succ bound ih =>
    refine (agree_propertyRecord ht hlayouts).bind ?_
    rintro _ _ (hr | _)
    · refine (Decode.Agree.lift (h.store hr done)).bind ?_
      rintro done' _ rfl
      exact ih done'
    · exact .refl _

/-- Readers of any number of levels read alike with both tables. -/
theorem agrees_ofLevels (ht : t.Respelled t') (hlayouts : t.SameLayouts t') (levels : Nat) :
    Agrees (ofLevels ⟨t, schema, cs⟩ levels) (ofLevels ⟨t', schema, cs⟩ levels) := by
  induction levels with
  | zero => exact ⟨fun _ => .refl _, fun _ => .refl _⟩
  | succ levels ih =>
    exact ⟨fun scope => .bind_left _ fun input => ih.readRecords ht hlayouts _ [],
      ih.readElement⟩

end PropertyReaders

/-! ## Tables that spell a plain struct differently -/

namespace Decode

/-- A number is read from any bytes, if there are enough. -/
theorem exists_littleEndian {n : Nat} {input : List UInt8} (h : n ≤ input.length) :
    ∃ v rest, littleEndian n input = .ok (v, rest) ∧ rest.length + n = input.length := by
  induction n generalizing input with
  | zero => exact ⟨0, input, rfl, rfl⟩
  | succ n ih =>
    cases input with
    | nil => simp at h
    | cons b input =>
      rw [List.length_cons] at h
      obtain ⟨v, rest, hv, hrest⟩ := ih (Nat.le_of_succ_le_succ h)
      refine ⟨_, rest, bind_eq_ok.2 ⟨b, input, rfl, bind_eq_ok.2 ⟨v, rest, hv, rfl⟩⟩, ?_⟩
      rw [List.length_cons]
      omega

theorem exists_u32 (input : List UInt8) (h : 4 ≤ input.length) :
    ∃ v rest, u32 input = .ok (v, rest) ∧ rest.length + 4 = input.length := by
  obtain ⟨v, rest, hv, hrest⟩ := exists_littleEndian h
  exact ⟨_, rest, map_eq_ok.2 ⟨v, hv, rfl⟩, hrest⟩

/-- Three numbers are read from twelve bytes. -/
theorem exists_three {α : Type} (f : UInt32 → α) {input : List UInt8} (h : 12 ≤ input.length) :
    ∃ x y z m₁ m₂ rest, (f <$> u32) input = .ok (x, m₁) ∧ (f <$> u32) m₁ = .ok (y, m₂) ∧
      (f <$> u32) m₂ = .ok (z, rest) := by
  obtain ⟨x, m₁, hx, hlength₁⟩ := exists_u32 input (by omega)
  obtain ⟨y, m₂, hy, hlength₂⟩ := exists_u32 m₁ (by omega)
  obtain ⟨z, rest, hz, -⟩ := exists_u32 m₂ (by omega)
  exact ⟨f x, f y, f z, m₁, m₂, rest, map_eq_ok.2 ⟨x, hx, rfl⟩, map_eq_ok.2 ⟨y, hy, rfl⟩,
    map_eq_ok.2 ⟨z, hz, rfl⟩⟩

/-- Twelve bytes are enough for the numbers of any plain struct. -/
theorem exists_plainStruct (plain : PlainStruct) (input : List UInt8) (h : 12 ≤ input.length) :
    ∃ v rest, plainStruct plain input = .ok (v, rest) ∧ v.plain? = some plain := by
  cases plain with
  | vector =>
    obtain ⟨x, y, z, m₁, m₂, rest, hx, hy, hz⟩ := exists_three Single.mk h
    exact ⟨.vector x y z, rest, bind_eq_ok.2 ⟨x, m₁, hx, bind_eq_ok.2 ⟨y, m₂, hy,
      bind_eq_ok.2 ⟨z, rest, hz, rfl⟩⟩⟩, rfl⟩
  | rotator =>
    obtain ⟨x, y, z, m₁, m₂, rest, hx, hy, hz⟩ := exists_three UInt32.toInt32 h
    exact ⟨.rotator x y z, rest, bind_eq_ok.2 ⟨x, m₁, hx, bind_eq_ok.2 ⟨y, m₂, hy,
      bind_eq_ok.2 ⟨z, rest, hz, rfl⟩⟩⟩, rfl⟩
  | color =>
    obtain ⟨b, g, r, a, rest, rfl⟩ : ∃ b g r a rest, input = b :: g :: r :: a :: rest := by
      rcases input with _ | ⟨b, _ | ⟨g, _ | ⟨r, _ | ⟨a, rest⟩⟩⟩⟩
      case cons.cons.cons.cons => exact ⟨b, g, r, a, rest, rfl⟩
      all_goals simp at h
    exact ⟨.color b g r a, rest, rfl, rfl⟩

end Decode

/-- Spellings of one name that announce different layouts do not end a list. -/
theorem PlainStruct.ne_none {name name' : String} (hsame : sameName name name' = true)
    (h : ofName? name ≠ ofName? name') :
    sameName name noneName = false ∧ sameName name' noneName = false := by
  have hplain : ∀ {name plain}, ofName? name = some plain → sameName name noneName = false := by
    intro name plain h
    unfold ofName? at h
    split at h
    · next hname => subst hname; decide
    · split at h
      · next hname => subst hname; decide
      · split at h
        · next hname => subst hname; decide
        · cases h
  have hboth : sameName name noneName = sameName name' noneName := by
    rw [sameName_comm, sameName_congr hsame, sameName_comm]
  rw [← hboth, and_self]
  cases hname : ofName? name with
  | some plain => exact hplain hname
  | none =>
    cases hname' : ofName? name' with
    | some plain => exact hboth.trans (hplain hname')
    | none => exact absurd (hname.trans hname'.symm) h

/-- A record of sixteen bytes for a struct that has the name of its property. -/
def structRecord {index : NameIndex} {name : String} {payload : List UInt8}
    (hname : t.name index = .ok name) (hnone : sameName name noneName = false)
    (hpayload : payload.length = 16) : FramedRecord t where
  nameBytes := Encode.compact index
  nameIndex := index
  name := name
  info := 0x4A
  structBytes := Encode.compact index
  structName := some name
  sizeBytes := []
  slotBytes := []
  slot := 0
  payload := payload
  reads_name := reads_compact index
  name_eq := hname
  ne_none := hnone
  reads_struct := ((reads_compact index).bind ((Reads.lift hname).map some)).congr
    (List.append_nil _)
  reads_size := by
    rw [hpayload]
    exact .pure 16
  reads_slot := reads_recordSlot_unflagged _

/-- Sixteen bytes under a name are a record of a struct. -/
theorem structRecord_tag {index : NameIndex} {name : String} {payload : List UInt8}
    (hname : t.name index = .ok name) (hnone : sameName name noneName = false)
    (hpayload : payload.length = 16) :
    (structRecord hname hnone hpayload).record.tag = .struct := by
  have hinfo : (structRecord hname hnone hpayload).info = 0x4A := rfl
  simp only [FramedRecord.record, hinfo]
  rfl

/-- The record is read as the layout that the spelling of the name asks for. -/
theorem exists_readFramed_structRecord (field structName : String) {index : NameIndex}
    {name : String} {ending payload : List UInt8} (hname : t.name index = .ok name)
    (hnone : sameName name noneName = false) (hpayload : payload.length = 16)
    (hending : EndsList t ending) (hfront : ending <+: payload)
    (hfield : sameName field name = true) (cs : Charset) (scope : String) :
    ∃ v : PropertyValue, v.plain? = PlainStruct.ofName? name ∧
      readFramed ⟨t, fun _ => .ok [⟨field, .struct structName, 1⟩], cs⟩ scope
        [structRecord hname hnone hpayload] ending [] =
          .ok ([⟨field, ⟨field, .struct structName, 1⟩, [some v]⟩], []) := by
  obtain ⟨more, rfl⟩ := hfront
  let ctx : PropertyContext := ⟨t, fun _ => .ok [⟨field, .struct structName, 1⟩], cs⟩
  have hread : ∃ v left, v.plain? = PlainStruct.ofName? name ∧
      (ofLevels ctx propertyNestingLimit).readPayload cs
        (structRecord hname hnone hpayload).record (.struct structName)
        (.noTemplate field scope) (ending ++ more) = .ok (v, left) := by
    have hname : (structRecord hname hnone hpayload).record.structName.getD "" = name := rfl
    unfold readPayload
    rw [structRecord_tag, hname]
    cases PlainStruct.ofName? name with
    | some plain =>
      obtain ⟨v, left, hread, hplain⟩ :=
        exists_plainStruct plain (ending ++ more) (by omega)
      exact ⟨v, left, hplain, hread⟩
    | none =>
      have hlist : (ofLevels ctx propertyNestingLimit).list structName (ending ++ more) =
          .ok ([], more) := list_flatMap 63 [] hending more
      exact ⟨.struct [], more, rfl, map_eq_ok.2 ⟨[], hlist, rfl⟩⟩
  obtain ⟨v, left, hplain, hread⟩ := hread
  refine ⟨v, hplain, (readFramed_singleton hending _).2
    ⟨rfl, ⟨field, .struct structName, 1⟩, v, ?_, rfl⟩⟩
  exact {
    field := ⟨_, rfl, List.find?_cons_of_pos hfield⟩
    tag := ⟨.struct, rfl, by rw [structRecord_tag]; rfl⟩
    nonneg := Int.le_refl 0
    slot_lt := Int.zero_lt_one
    value := ⟨left, hread⟩ }

/-- Name tables that are the same up to case are read alike if they spell the plain structs alike:
the same lists are read from the same bytes, and errors differ at most in how a property is
spelled. If they do not, and a list can be ended, they read some list differently. -/
theorem readProperties_respelled (h : t.Respelled t') :
    (t.SameLayouts t' → ∀ (schema : SchemaResolver) (cs : Charset) (scope : String),
      Decode.Agree Eq (readProperties ⟨t, schema, cs⟩ scope)
        (readProperties ⟨t', schema, cs⟩ scope)) ∧
    ((∃ index name, t.name index = .ok name ∧ sameName name noneName = true) →
      ¬t.SameLayouts t' → ∀ (cs : Charset) (scope : String), ∃ schema input ps ps',
        readProperties ⟨t, schema, cs⟩ scope input = .ok (ps, []) ∧
        readProperties ⟨t', schema, cs⟩ scope input = .ok (ps', []) ∧ ps ≠ ps') := by
  constructor
  · intro hlayouts schema cs scope
    exact (agrees_ofLevels h hlayouts _).list scope
  · rintro ⟨last, none, hlast, hnone⟩ hlayouts cs scope
    simp only [Tables.SameLayouts, not_forall] at hlayouts
    obtain ⟨index, name, name', hname, hname', hlayout⟩ := hlayouts
    have hsame : sameName name name' = true := by
      obtain ⟨found, hfound, hsame⟩ := h.exists_name hname
      cases hname'.symm.trans hfound
      exact hsame
    obtain ⟨none', hlast', hnone'⟩ : ∃ none', t'.name last = .ok none' ∧
        sameName none' noneName = true := by
      obtain ⟨none', hlast', hsame'⟩ := h.exists_name hlast
      exact ⟨none', hlast', by rwa [sameName_comm, ← sameName_congr hsame', sameName_comm]⟩
    have hending : EndsList t (Encode.compact last) :=
      ⟨last, none, reads_compact last, hlast, hnone⟩
    have hending' : EndsList t' (Encode.compact last) :=
      ⟨last, none', reads_compact last, hlast', hnone'⟩
    have hlength := Encode.length_compact_le last
    have hpayload : (Encode.compact last ++
        List.replicate (16 - (Encode.compact last).length) 0).length = 16 := by
      rw [List.length_append, List.length_replicate]
      omega
    obtain ⟨hne, hne'⟩ := PlainStruct.ne_none hsame hlayout
    obtain ⟨v, hv, hread⟩ := exists_readFramed_structRecord name "" hname hne hpayload hending
      (List.prefix_append _ _) (beq_self_eq_true _) cs scope
    obtain ⟨v', hv', hread'⟩ := exists_readFramed_structRecord name "" hname' hne' hpayload
      hending' (List.prefix_append _ _) hsame cs scope
    refine ⟨_, _, _, _, hread, hread', ?_⟩
    intro hps
    cases hps
    exact hlayout (hv.symm.trans hv')

/-- A name table for a field `P`, with a name for its struct. -/
def structTables (structName : String) : Tables :=
  ⟨"Test", [⟨"None", 0⟩, ⟨"P", 0⟩, ⟨structName, 0⟩], [], []⟩

/-- A struct that is always stored as a property list may be spelled in any way. -/
theorem readProperties_respelled_foo :
    (structTables "Foo").Respelled (structTables "FOO") ∧
      (structTables "Foo").SameLayouts (structTables "FOO") ∧
      ∀ (schema : SchemaResolver) (cs : Charset) (scope : String),
        Decode.Agree Eq (readProperties ⟨structTables "Foo", schema, cs⟩ scope)
          (readProperties ⟨structTables "FOO", schema, cs⟩ scope) := by
  have hsame : (structTables "Foo").Respelled (structTables "FOO") :=
    .cons (by decide) (.cons (by decide) (.cons (by decide) .nil))
  have hlayouts : (structTables "Foo").SameLayouts (structTables "FOO") :=
    .of_forall₂ (.cons rfl (.cons rfl (.cons (by decide) .nil)))
  exact ⟨hsame, hlayouts, (readProperties_respelled hsame).1 hlayouts⟩

/-- A record of a plain struct is read as a property list if the name table spells the struct in
small letters. -/
theorem readProperties_respelled_vector :
    (structTables "Vector").Respelled (structTables "vector") ∧
      readProperties ⟨structTables "Vector", PropertyContext.oneStruct.schema, .windows1252⟩
        "Test.Thing" (oneStructRecord 2) = .ok (oneStruct (.vector ⟨0⟩ ⟨0⟩ ⟨0⟩), []) ∧
      readProperties ⟨structTables "vector", PropertyContext.oneStruct.schema, .windows1252⟩
        "Test.Thing" (oneStructRecord 2) = .ok (oneStruct (.struct []), []) ∧
      oneStruct (.vector ⟨0⟩ ⟨0⟩ ⟨0⟩) ≠ oneStruct (.struct []) := by
  refine ⟨.cons (by decide) (.cons (by decide) (.cons (by decide) .nil)), rfl, rfl, ?_⟩
  intro h
  cases h

end UnrealPackage
