import UnrealPackage.Proofs.Property.Regroup
/-!
# Property lists read back

`readProperties_writeProperties`: a well-formed property list is read back from its bytes, whatever
follows them, but for the properties of which no slot is set.

The induction is on the levels of nesting that are left: `ReadsBack.ofLevels` goes from the readers
of one level to those of the next. Inside a level the properties of a list, and the slots of a
property, are gone through in the order in which they were written.
-/

namespace UnrealPackage

open Decode

namespace PropertyReaders

variable {ctx : PropertyContext} {below : PropertyReaders} {fits : PropertyFits} {scope : String}
  {p : Property} {done : List Property}

theorem kind_eq_bool {kind : PropertyKind} (h : PropertyTag.ofKind kind = .ok .bool) :
    kind = .bool := by
  cases kind with
  | bool => rfl
  | _ => cases h

/-- A kind that can be stored has a tag. -/
theorem exists_ofKind {kind : PropertyKind} (h : kind ≠ .delegate ∧ kind ≠ .pointer) :
    ∃ tag, PropertyTag.ofKind kind = .ok tag := by
  cases kind with
  | delegate => exact absurd rfl h.1
  | pointer => exact absurd rfl h.2
  | _ => exact ⟨_, rfl⟩

/-- The records of the slots that are left take the reader to the end of the property. -/
theorem advances_slots {index : NameIndex} {spelled : String} {tag : PropertyTag}
    (h : below.ReadsBack ctx fits) (hp : fits.Property ctx scope p)
    (hdone : ∀ q ∈ done, sameName q.name p.name = false)
    (hindex : ctx.tables.name index = .ok spelled) (hname : sameName spelled p.name = true)
    (htag : PropertyTag.ofKind p.template.kind = .ok tag) {vs : List (Option PropertyValue)}
    {slot : Nat} (hslot : slot ≤ p.values.length) (hvs : p.values.drop slot = vs) : ∃ bytes,
    PropertyValue.encodeSlots ctx.tables ctx.charset index tag p.template.kind slot vs =
      .ok bytes ∧
    Advances ctx below scope bytes (p.after done slot) (p.after done p.values.length) := by
  induction vs generalizing slot with
  | nil =>
    obtain rfl := Nat.le_antisymm hslot (List.drop_eq_nil_iff.1 hvs)
    exact ⟨[], rfl, .refl⟩
  | cons x vs ih =>
    have hx : p.values[slot]? = some x := by
      rw [← List.head?_drop, hvs, List.head?_cons]
    obtain ⟨hlt, -⟩ := List.getElem?_eq_some_iff.1 hx
    have hrest : p.values.drop (slot + 1) = vs := by rw [← List.tail_drop, hvs, List.tail_cons]
    obtain ⟨more, hmore, hadvances⟩ := ih hlt hrest
    cases x with
    | none =>
      rw [Property.after_succ_of_none done hx] at hadvances
      exact ⟨more, hmore, hadvances⟩
    | some v =>
      have hget : p.get? slot = some v := by
        rw [Property.get?, hx]
        rfl
      obtain ⟨hbound, hbool, hv, hsize⟩ := hp.value slot v hget
      obtain ⟨payload, told, hpayload, htold, hread⟩ := reads_payload slot h hv htag
      have hnone : sameName spelled noneName = false := by
        rw [sameName_comm, sameName_congr hname, sameName_comm, hp.ne_none]
      obtain ⟨front, hfront, hne, hrecord⟩ := reads_propertyRecord v hindex hnone htag htold hbound
        (fun ht => hbool (kind_eq_bool (ht ▸ htag))) (hsize payload hpayload)
      refine ⟨front ++ more, ?_, .trans (.record hne hrecord ?_) hadvances⟩
      · rw [PropertyValue.encodeSlots, hpayload, except_ok_bind, hfront, except_ok_bind, hmore]
        rfl
      · refine store_after hp hdone hname htag rfl hx fun mismatch => ?_
        have hr := hread (hsize payload hpayload)
          ⟨spelled, tag, Encode.recordFlag tag slot v, told, slot, payload⟩ rfl rfl rfl mismatch []
        rwa [List.append_nil] at hr

/-- The records of properties in a row add those of which a slot is set. -/
theorem advances_fields {ps : List Property} (done : List Property)
    (h : below.ReadsBack ctx fits) (hps : ∀ p ∈ ps, fits.Property ctx scope p)
    (hdistinct : ps.Pairwise fun p q => sameName p.name q.name = false)
    (hdone : ∀ q ∈ done, ∀ p ∈ ps, sameName q.name p.name = false) : ∃ bytes,
    PropertyValue.encodeFields ctx.tables ctx.charset ps = .ok bytes ∧
    Advances ctx below scope bytes done (done ++ PropertyValue.pruneFields ps) := by
  induction ps generalizing done with
  | nil => exact ⟨[], rfl, by rw [PropertyValue.pruneFields, List.append_nil]; exact .refl⟩
  | cons p ps ih =>
    have hp := hps p List.mem_cons_self
    obtain ⟨hfirst, hdistinct⟩ := List.pairwise_cons.1 hdistinct
    obtain ⟨spelled, hspells⟩ := hp.named
    obtain ⟨index, hindex, hlookup, hname⟩ := hspells.exists_index
    obtain ⟨tag, htag⟩ := exists_ofKind hp.kind
    obtain ⟨front, hfront, hadvances⟩ := advances_slots h hp
      (fun q hq => hdone q hq p List.mem_cons_self) hlookup hname htag (Nat.zero_le _)
      List.drop_zero
    have hdone' : ∀ q ∈ done ++ PropertyValue.pruneFields [p], ∀ p' ∈ ps,
        sameName q.name p'.name = false := by
      intro q hq p' hp'
      rcases List.mem_append.1 hq with hq | hq
      · exact hdone q hq p' (List.mem_cons_of_mem p hp')
      · rw [PropertyValue.name_of_mem_pruneFields hq]
        exact hfirst p' hp'
    obtain ⟨more, hmore, hadvances'⟩ :=
      ih _ (fun q hq => hps q (List.mem_cons_of_mem p hq)) hdistinct hdone'
    rw [Property.after_length, Property.after_zero] at hadvances
    refine ⟨front ++ more, ?_, ?_⟩
    · rw [PropertyValue.encodeFields, htag, except_ok_bind, hindex, except_ok_bind, hfront,
        except_ok_bind, hmore]
      rfl
    · rw [PropertyValue.pruneFields_cons, ← List.append_assoc]
      exact hadvances.trans hadvances'

/-! ## Levels -/

/-- The name that ends a list is read as the end. -/
theorem reads_ending {t : Tables} {spelled : String} (h : t.Spells noneName spelled) : ∃ bytes,
    Encode.propertyListEnd t = .ok bytes ∧ bytes ≠ [] ∧
    Reads (Decode.propertyRecord t) bytes none := by
  obtain ⟨index, hindex, hlookup, hname⟩ := h.exists_index
  refine ⟨Encode.compact index ++ ([] ++ []), ?_, ?_, ?_⟩
  · rw [Encode.propertyListEnd, hindex, List.append_nil, List.append_nil]
    rfl
  · exact List.append_ne_nil_of_left_ne_nil (Encode.compact_ne_nil index) _
  · refine (reads_compact index).bind ((Reads.lift hlookup).bind ?_)
    rw [if_pos hname]
    exact .pure none

/-- A list whose properties fit is read back from its records and its end. -/
theorem reads_properties {ps : List Property} (h : below.ReadsBack ctx fits)
    (hps : fits.Properties ctx scope ps) : ∃ bytes,
    writeProperties ctx.tables ctx.charset ps = .ok bytes ∧ bytes ≠ [] ∧
    Reads (get >>= fun input => below.readRecords ctx scope (input.length + 1) []) bytes
      (PropertyValue.pruneFields ps) := by
  obtain ⟨records, hrecords, hadvances⟩ := advances_fields [] h hps.each hps.distinct
    fun _ hq => absurd hq List.not_mem_nil
  obtain ⟨spelled, hspells⟩ := hps.noneNamed
  obtain ⟨ending, hending, hne, hr⟩ := reads_ending hspells
  refine ⟨records ++ ending, ?_, List.append_ne_nil_of_right_ne_nil _ hne, hadvances.reads_list hr⟩
  rw [writeProperties, hrecords, except_ok_bind, hending]
  rfl

/-- What fits a number of levels is read back with as many. -/
theorem ReadsBack.ofLevels (ctx : PropertyContext) (levels : Nat) :
    (PropertyReaders.ofLevels ctx levels).ReadsBack ctx (PropertyFits.ofLevels ctx levels) := by
  induction levels with
  | zero => exact ⟨fun h => h.elim, fun h => h.elim⟩
  | succ levels ih => exact ⟨fun hps => reads_properties ih hps, fun hv => reads_element ih hv⟩

end PropertyReaders

/-- The name that ends a list is read back as an empty one. -/
theorem readProperties_compact (ctx : PropertyContext) {index : NameIndex}
    (hspells : ∃ spelled, ctx.tables.Spells noneName spelled)
    (hindex : ctx.tables.nameIndex noneName = .ok index) (scope : String) (rest : List UInt8) :
    readProperties ctx scope (Encode.compact index ++ rest) = .ok ([], rest) := by
  have hempty : WellFormedProperties ctx scope [] := ⟨nofun, .nil, hspells⟩
  obtain ⟨bytes, hbytes, -, hr⟩ := (PropertyReaders.ReadsBack.ofLevels ctx _).list hempty
  rw [writeProperties, PropertyValue.encodeFields, Encode.propertyListEnd, hindex] at hbytes
  cases hbytes
  exact hr rest

/-- A well-formed property list can be written, and reading its bytes takes exactly these bytes and
gives the list without the properties of which no slot is set, at every level. -/
theorem readProperties_writeProperties (ctx : PropertyContext) (scope : String)
    (ps : List Property) (h : WellFormedProperties ctx scope ps) :
    ∃ bytes, writeProperties ctx.tables ctx.charset ps = .ok bytes ∧
      ∀ rest, readProperties ctx scope (bytes ++ rest) =
        .ok (PropertyValue.pruneFields ps, rest) := by
  obtain ⟨bytes, hbytes, -, hr⟩ := (PropertyReaders.ReadsBack.ofLevels ctx _).list h
  exact ⟨bytes, hbytes, hr⟩

/-- A reader for a schema of two fields, the second divided into two slots. -/
def PropertyContext.small : PropertyContext where
  tables := ⟨"P", [⟨"None", 0⟩, ⟨"spots", 0⟩, ⟨"Hidden", 0⟩], [], []⟩
  schema := fun _ => .ok
    [⟨"Hidden", .bool, 1⟩, ⟨"Spots", .array "Spots" (.struct "Core.Object.Vector") 1, 2⟩]
  charset := .windows1252

/-- Its second field with the second slot set, the first field not. -/
def smallProperties : List Property :=
  [⟨"Hidden", ⟨"Hidden", .bool, 1⟩, [none]⟩,
    ⟨"Spots", ⟨"Spots", .array "Spots" (.struct "Core.Object.Vector") 1, 2⟩,
      [none, some (.array [.vector ⟨0⟩ ⟨1⟩ ⟨2⟩])]⟩]

/-- A property without a value is not written, and the others are read back. -/
theorem readProperties_writeProperties_small :
    ∃ bytes, writeProperties PropertyContext.small.tables .windows1252 smallProperties =
      .ok bytes ∧ ∀ rest, readProperties .small "Core.Thing" (bytes ++ rest) =
        .ok (smallProperties.drop 1, rest) := by
  have hhidden : (PropertyFits.ofLevels .small propertyNestingLimit).Property .small "Core.Thing"
      ⟨"Hidden", ⟨"Hidden", .bool, 1⟩, [none]⟩ :=
    { name_eq := rfl
      slots := rfl
      field := ⟨_, rfl, rfl⟩
      ne_none := by decide
      named := ⟨"Hidden", 2, by decide, by decide, rfl⟩
      kind := ⟨nofun, nofun⟩
      value := fun slot v h => by cases slot <;> cases h }
  have hspots : (PropertyFits.ofLevels .small propertyNestingLimit).Property .small "Core.Thing"
      ⟨"Spots", ⟨"Spots", .array "Spots" (.struct "Core.Object.Vector") 1, 2⟩,
        [none, some (.array [.vector ⟨0⟩ ⟨1⟩ ⟨2⟩])]⟩ :=
    { name_eq := rfl
      slots := rfl
      field := ⟨_, rfl, rfl⟩
      ne_none := by decide
      named := ⟨"spots", 1, by decide, by decide, rfl⟩
      kind := ⟨nofun, nofun⟩
      value := fun slot v h => by
        obtain _ | _ | slot := slot <;> cases h
        refine ⟨by decide, nofun, .array fun v hv => ?_, fun payload hpayload => ?_⟩
        · rw [List.mem_singleton.1 hv]
          exact .struct rfl (.vector (by decide))
        · cases hpayload
          decide }
  have hwell : WellFormedProperties .small "Core.Thing" smallProperties :=
    { each := fun p hp => by
        simp only [smallProperties, List.mem_cons, List.not_mem_nil, or_false] at hp
        rcases hp with rfl | rfl
        · exact hhidden
        · exact hspots
      distinct := by decide
      noneNamed := ⟨"None", 0, by decide, by decide, rfl⟩ }
  exact readProperties_writeProperties .small "Core.Thing" smallProperties hwell

end UnrealPackage
