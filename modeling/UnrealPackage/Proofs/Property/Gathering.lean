import UnrealPackage.Proofs.Property.Accepted
/-!
# Properties gathered from records

The reader of a list carries along the properties that it made so far, and later records of the same
name go into them. What a record does there is settled by the record and the schema alone: it sets a
slot of the field of its name to a value (`PropertyReaders.Sets`), or is refused.

The invariant of the loop is `PropertyReaders.Gathered`: it compares the properties made so far with
the records that were stored, and does not speak of the order in which the properties stand. One
record keeps it (`Gathered.step`), and so do all of them (`Gathered.run`).
-/

namespace UnrealPackage

/-- Whether the record is for a slot of the property of that name. -/
def PropertyRecord.isFor (name : String) (slot : Int) (r : PropertyRecord) : Bool :=
  sameName r.name name && r.slot == slot

theorem PropertyRecord.isFor_iff {name : String} {slot : Int} {r : PropertyRecord} :
    r.isFor name slot = true ↔ sameName r.name name = true ∧ r.slot = slot := by
  rw [isFor, Bool.and_eq_true, beq_iff_eq]

/-- The last of the records for a slot. -/
def lastFor (name : String) (slot : Int) (rs : List PropertyRecord) : Option PropertyRecord :=
  (rs.filter (·.isFor name slot)).getLast?

/-- The last record for a slot is the new one if that is for it. -/
theorem lastFor_concat (name : String) (slot : Int) (rs : List PropertyRecord)
    (r : PropertyRecord) : lastFor name slot (rs ++ [r]) =
      if r.isFor name slot then some r else lastFor name slot rs := by
  unfold lastFor
  rw [List.filter_append]
  split
  · next h => rw [List.filter_cons_of_pos h, List.filter_nil, List.getLast?_concat]
  · next h => rw [List.filter_cons_of_neg h, List.filter_nil, List.append_nil]

theorem mem_of_lastFor {name : String} {slot : Int} {rs : List PropertyRecord}
    {r : PropertyRecord} (h : lastFor name slot rs = some r) : r ∈ rs ∧ r.isFor name slot := by
  have hmem := List.mem_of_getLast? h
  simpa using hmem

/-- A property is known by its template and its slots. -/
theorem Property.ext_get? {p q : Property} (hname : p.name = q.name)
    (htemplate : p.template = q.template) (hslots : p.values.length = q.values.length)
    (hget : ∀ slot, p.get? slot = q.get? slot) : p = q := by
  obtain ⟨name, template, values⟩ := p
  obtain ⟨name', template', values'⟩ := q
  cases hname
  cases htemplate
  have hvalues : values = values' := by
    refine List.ext_getElem hslots fun slot hlt hlt' => ?_
    have hslot := hget slot
    simp only [Property.get?, List.getElem?_eq_getElem hlt, List.getElem?_eq_getElem hlt',
      Option.join_some] at hslot
    exact hslot
  rw [hvalues]

namespace PropertyReaders

variable {ctx : PropertyContext} {below : PropertyReaders} {scope : String}
  {r : PropertyRecord} {rs : List PropertyRecord} {p q : Property} {ps : List Property}
  {template : FieldTemplate} {v : PropertyValue}

/-! ## What a record does by itself -/

/-- Whether the schema's template for the name is `template`. -/
def FieldNamed (ctx : PropertyContext) (scope name : String) (template : FieldTemplate) : Prop :=
  ∃ fields, ctx.schema scope = .ok fields ∧
    fields.find? (fun f => sameName f.name name) = some template

theorem FieldNamed.sameName {name : String} (h : FieldNamed ctx scope name template) :
    sameName template.name name = true := by
  obtain ⟨fields, -, hfind⟩ := h
  simpa using List.find?_some hfind

/-- A name has one template, by whatever spelling it is looked for. -/
theorem FieldNamed.eq {name name' : String} {template' : FieldTemplate}
    (h : FieldNamed ctx scope name template) (h' : FieldNamed ctx scope name' template')
    (hname : UnrealPackage.sameName name name' = true) : template = template' := by
  obtain ⟨fields, hschema, hfind⟩ := h
  obtain ⟨fields', hschema', hfind'⟩ := h'
  cases hschema.symm.trans hschema'
  simp only [sameName_congr hname] at hfind
  exact Option.some.inj (hfind.symm.trans hfind')

/-- Whether the record sets its slot to `v` in a field that is described by `template`. -/
structure Sets (ctx : PropertyContext) (below : PropertyReaders) (scope : String)
    (r : PropertyRecord) (template : FieldTemplate) (v : PropertyValue) : Prop where
  field : FieldNamed ctx scope r.name template
  tag : ∃ expected, PropertyTag.ofKind template.kind = .ok expected ∧
    r.tag.accepts expected = true
  nonneg : 0 ≤ r.slot
  slot_lt : r.slot < template.slotCount
  value : ∃ rest, below.readPayload ctx.charset r template.kind
    (.noTemplate template.name scope) r.payload = .ok (v, rest)

/-- A record sets its slot to one value. -/
theorem Sets.unique {template' : FieldTemplate} {v' : PropertyValue}
    (h : Sets ctx below scope r template v) (h' : Sets ctx below scope r template' v') :
    template = template' ∧ v = v' := by
  obtain rfl := h.field.eq h'.field (beq_self_eq_true _)
  obtain ⟨rest, hv⟩ := h.value
  obtain ⟨rest', hv'⟩ := h'.value
  cases hv.symm.trans hv'
  exact ⟨rfl, rfl⟩

/-- The slot is one of the field's. -/
theorem Sets.toNat_slot_lt (h : Sets ctx below scope r template v)
    (hslots : p.values.length = template.slotCount) : r.slot.toNat < p.values.length := by
  have hnonneg := h.nonneg
  have hslot := h.slot_lt
  omega

/-- The property with the value that a record sets. -/
def filled (p : Property) (r : PropertyRecord) (v : PropertyValue) : Property :=
  { p with values := p.values.set r.slot.toNat (some v) }

/-- A property of a field takes what the record sets, and nothing else. -/
theorem fill_eq_ok_iff_sets (hfield : FieldNamed ctx scope r.name p.template)
    (hslots : p.values.length = p.template.slotCount) :
    below.fill ctx.charset scope r p = .ok q ↔
      ∃ v, Sets ctx below scope r p.template v ∧ q = filled p r v := by
  rw [fill_eq_ok_iff]
  constructor
  · rintro ⟨expected, v, rest, htag, haccepts, hpos, hlt, hv, rfl⟩
    exact ⟨v, ⟨hfield, ⟨expected, htag, haccepts⟩, hpos, by omega, rest, hv⟩, rfl⟩
  · rintro ⟨v, hsets, rfl⟩
    obtain ⟨expected, htag, haccepts⟩ := hsets.tag
    obtain ⟨rest, hv⟩ := hsets.value
    exact ⟨expected, v, rest, htag, haccepts, hsets.nonneg, hsets.toNat_slot_lt hslots, hv, rfl⟩

/-- Only the slot of the record changes. -/
theorem get?_filled (h : r.slot.toNat < p.values.length) (slot : Nat) :
    (filled p r v).get? slot = if slot = r.slot.toNat then some v else p.get? slot := by
  rw [Property.get?, filled, List.getElem?_set]
  by_cases hslot : r.slot.toNat = slot
  · subst hslot
    simp [h]
  · rw [if_neg hslot, if_neg (Ne.symm hslot)]
    rfl

/-! ## Where a record finds its property -/

/-- The property of a field as it was made so far. -/
def held (ps : List Property) (template : FieldTemplate) : Property :=
  (ps.find? fun p => sameName p.name template.name).getD (.empty template)

/-- The properties with one in the place of that of the name, or behind them. -/
def put (name : String) (ps : List Property) (p : Property) : List Property :=
  match ps.findIdx? fun q => sameName q.name name with
  | some i => ps.set i p
  | none => ps ++ [p]

/-- A record goes to the property that was made for its field. -/
theorem store_eq (hfield : FieldNamed ctx scope r.name template) :
    below.store ctx scope ps r = below.fill ctx.charset scope r (held ps template) >>= fun p =>
      pure (put template.name ps p) := by
  have hsame : ∀ name, sameName name template.name = sameName name r.name :=
    fun name => sameName_congr hfield.sameName
  unfold store place held put
  simp only [hsame]
  cases hfind : ps.findIdx? fun p => sameName p.name r.name with
  | some i =>
    obtain ⟨hlt, hi, hbefore⟩ := List.findIdx?_eq_some_iff_getElem.1 hfind
    have hfound : ps.find? (fun p => sameName p.name r.name) = some ps[i] :=
      List.find?_eq_some_iff_getElem.2 ⟨hi, i, hlt, rfl, by simpa using hbefore⟩
    rw [hfound]
    dsimp only
    rw [pure_bind]
    dsimp only
    rw [List.getElem?_eq_getElem hlt]
    rfl
  | none =>
    have hfound : ps.find? (fun p => sameName p.name r.name) = none :=
      List.find?_eq_none.2 fun p hp =>
        Bool.eq_false_iff.1 (List.findIdx?_eq_none_iff.1 hfind p hp)
    have hlast : (ps ++ [Property.empty template])[ps.length]? = some (.empty template) := by simp
    obtain ⟨fields, hschema, hfield⟩ := hfield
    rw [hfound]
    dsimp only
    rw [hschema, except_ok_bind, hfield]
    dsimp only
    rw [pure_bind]
    simp only [hlast, List.set_append_right _ _ (Nat.le_refl _), Nat.sub_self, List.set_cons_zero]
    rfl

/-- A field has one property made so far, which is empty if no record named it. -/
theorem held_cases (hfield : FieldNamed ctx scope r.name template) :
    held ps template ∈ ps ∧ sameName (held ps template).name r.name = true ∨
      held ps template = .empty template ∧ ∀ p ∈ ps, sameName p.name template.name = false := by
  unfold held
  cases hfind : ps.find? fun p => sameName p.name template.name with
  | none => exact .inr ⟨rfl, fun p hp => Bool.eq_false_iff.2 (List.find?_eq_none.1 hfind p hp)⟩
  | some p =>
    have hname : sameName p.name template.name = true := by simpa using List.find?_some hfind
    rw [sameName_congr hfield.sameName] at hname
    exact .inl ⟨List.mem_of_find?_eq_some hfind, hname⟩

/-- Whether the properties have different names. -/
def Distinct (ps : List Property) : Prop :=
  ps.Pairwise fun p q => sameName p.name q.name = false

/-- A property that is put in has the place of the one of its name, and the others are still there.
-/
theorem mem_put {name : String} (h : Distinct ps) :
    q ∈ put name ps p ↔ q = p ∨ q ∈ ps ∧ sameName q.name name = false := by
  unfold put
  split
  · next i hfind =>
    obtain ⟨hlt, hi, hbefore⟩ := List.findIdx?_eq_some_iff_getElem.1 hfind
    have hget := List.pairwise_iff_getElem.1 h
    have hother : ∀ j (hj : j < ps.length), j ≠ i → sameName ps[j].name name = false := by
      intro j hj hne
      rw [← sameName_congr hi]
      rcases Nat.lt_or_gt_of_ne hne with hj' | hj'
      · exact hget j i hj hlt hj'
      · rw [sameName_comm]
        exact hget i j hlt hj hj'
    constructor
    · intro hq
      obtain ⟨j, hj, rfl⟩ := List.mem_iff_getElem.1 hq
      rw [List.length_set] at hj
      rw [List.getElem_set]
      split
      · exact .inl rfl
      · next hne => exact .inr ⟨List.getElem_mem hj, hother j hj (Ne.symm hne)⟩
    · rintro (rfl | ⟨hq, hname⟩)
      · exact List.mem_set hlt _
      · obtain ⟨j, hj, rfl⟩ := List.mem_iff_getElem.1 hq
        have hne : i ≠ j := by
          rintro rfl
          rw [hi] at hname
          cases hname
        exact List.mem_iff_getElem.2 ⟨j, by rwa [List.length_set], List.getElem_set_ne hne _⟩
  · next hfind =>
    rw [List.mem_append, List.mem_singleton, or_comm]
    exact or_congr_right ⟨fun hq => ⟨hq, List.findIdx?_eq_none_iff.1 hfind q hq⟩, fun hq => hq.1⟩

/-- Properties stay distinct if one takes the place of that of its name. -/
theorem distinct_put {name : String} (hname : sameName p.name name = true) (h : Distinct ps) :
    Distinct (put name ps p) := by
  unfold put
  split
  · next i hfind =>
    obtain ⟨hlt, hi, -⟩ := List.findIdx?_eq_some_iff_getElem.1 hfind
    have hsame : foldCase p.name = foldCase ps[i].name :=
      (sameName_iff.1 hname).trans (sameName_iff.1 hi).symm
    have hlt' : i < (ps.map (foldCase ·.name)).length := by rwa [List.length_map]
    have hnames : (ps.set i p).map (foldCase ·.name) = ps.map (foldCase ·.name) := by
      have hget : (ps.map (foldCase ·.name))[i] = foldCase ps[i].name := List.getElem_map _
      rw [List.map_set, hsame, ← hget, List.set_getElem_self]
    have hdistinct : ((ps.set i p).map (foldCase ·.name)).Pairwise fun a b => (a == b) = false := by
      rw [hnames]
      exact List.pairwise_map.2 h
    exact List.pairwise_map.1 hdistinct
  · next hfind =>
    refine List.pairwise_append.2 ⟨h, List.pairwise_singleton _ _, fun q hq p' hp' => ?_⟩
    rw [List.mem_singleton.1 hp', sameName_congr hname]
    exact List.findIdx?_eq_none_iff.1 hfind q hq

/-! ## What the records read so far have made -/

/-- Whether the properties are what the records make, one after another: those of the fields that
the records name, each slot with the value of the last record for it. -/
structure Gathered (ctx : PropertyContext) (below : PropertyReaders) (scope : String)
    (rs : List PropertyRecord) (ps : List Property) : Prop where
  name_eq : ∀ p ∈ ps, p.name = p.template.name
  slots : ∀ p ∈ ps, p.values.length = p.template.slotCount
  field : ∀ p ∈ ps, FieldNamed ctx scope p.name p.template
  distinct : Distinct ps
  asked : ∀ p ∈ ps, ∃ r ∈ rs, sameName p.name r.name = true
  named : ∀ r ∈ rs, ∃ p ∈ ps, sameName p.name r.name = true
  last : ∀ p ∈ ps, ∀ (slot : Nat) v, p.get? slot = some v ↔
    ∃ r template, lastFor p.name slot rs = some r ∧ Sets ctx below scope r template v

/-- Nothing is gathered from no records. -/
theorem gathered_nil : Gathered ctx below scope [] [] where
  name_eq := nofun
  slots := nofun
  field := nofun
  distinct := .nil
  asked := nofun
  named := nofun
  last := nofun

theorem lastFor_congr {name name' : String} (h : sameName name name' = true) (slot : Int)
    (rs : List PropertyRecord) : lastFor name slot rs = lastFor name' slot rs := by
  have hfor : PropertyRecord.isFor name slot = PropertyRecord.isFor name' slot :=
    funext fun r => by rw [PropertyRecord.isFor, PropertyRecord.isFor, sameName_congr h]
  rw [lastFor, lastFor, hfor]

namespace Gathered

/-- What is held for a field has the template and the name of that field, and a value or none for
each slot. -/
theorem held_spec (h : Gathered ctx below scope rs ps)
    (hfield : FieldNamed ctx scope r.name template) :
    (held ps template).template = template ∧ (held ps template).name = template.name ∧
      (held ps template).values.length = template.slotCount := by
  rcases held_cases hfield with ⟨hmem, hname⟩ | ⟨hempty, -⟩
  · have htemplate := (h.field _ hmem).eq hfield hname
    refine ⟨htemplate, ?_, ?_⟩
    · rw [h.name_eq _ hmem, htemplate]
    · rw [h.slots _ hmem, htemplate]
  · rw [hempty]
    exact ⟨rfl, rfl, List.length_replicate⟩

/-- A slot of the property made so far holds what the last record for it set. -/
theorem held_last (h : Gathered ctx below scope rs ps)
    (hfield : FieldNamed ctx scope r.name template) (slot : Nat) :
    (held ps template).get? slot = some v ↔ ∃ r template', lastFor template.name slot rs = some r ∧
      Sets ctx below scope r template' v := by
  have hname := (h.held_spec hfield).2.1
  rcases held_cases hfield with ⟨hmem, -⟩ | ⟨hempty, hnone⟩
  · rw [h.last _ hmem slot v, hname]
  · rw [hempty]
    constructor
    · intro hget
      rw [Property.get?, Property.empty, List.getElem?_replicate] at hget
      split at hget <;> cases hget
    · rintro ⟨r, template', hlast, -⟩
      obtain ⟨hr, hfor⟩ := mem_of_lastFor hlast
      obtain ⟨p, hp, hpname⟩ := h.named r hr
      rw [sameName_congr (PropertyRecord.isFor_iff.1 hfor).1, hnone p hp] at hpname
      cases hpname

/-- A record is stored only if the owner has a field of its name. -/
theorem exists_fieldNamed (h : Gathered ctx below scope rs ps) {ps' : List Property}
    (hstore : below.store ctx scope ps r = .ok ps') :
    ∃ template, FieldNamed ctx scope r.name template := by
  obtain ⟨placed, hplace, -⟩ := except_bind_eq_ok.1 hstore
  unfold place at hplace
  split at hplace
  · next i hfind =>
    obtain ⟨hlt, hi, -⟩ := List.findIdx?_eq_some_iff_getElem.1 hfind
    obtain ⟨fields, hschema, hfield⟩ := h.field _ (List.getElem_mem hlt)
    simp only [sameName_congr hi] at hfield
    exact ⟨_, fields, hschema, hfield⟩
  · obtain ⟨fields, hschema, hplace⟩ := except_bind_eq_ok.1 hplace
    split at hplace
    · next template hfield => exact ⟨template, fields, hschema, hfield⟩
    · cases hplace

/-- A record is refused, or sets its slot in the property that was made for its field. -/
theorem store_eq_ok_iff (h : Gathered ctx below scope rs ps) {ps' : List Property} :
    below.store ctx scope ps r = .ok ps' ↔ ∃ template v, Sets ctx below scope r template v ∧
      ps' = put template.name ps (filled (held ps template) r v) := by
  constructor
  · intro hstore
    obtain ⟨template, hfield⟩ := h.exists_fieldNamed hstore
    obtain ⟨htemplate, -, hslots⟩ := h.held_spec hfield
    rw [store_eq hfield] at hstore
    obtain ⟨p, hfill, hput⟩ := except_bind_eq_ok.1 hstore
    cases hput
    have hfield' : FieldNamed ctx scope r.name (held ps template).template := by
      rwa [htemplate]
    obtain ⟨v, hsets, rfl⟩ := (fill_eq_ok_iff_sets hfield' (by rwa [htemplate])).1 hfill
    rw [htemplate] at hsets
    exact ⟨template, v, hsets, rfl⟩
  · rintro ⟨template, v, hsets, rfl⟩
    obtain ⟨htemplate, -, hslots⟩ := h.held_spec hsets.field
    have hfield : FieldNamed ctx scope r.name (held ps template).template := by
      rw [htemplate]
      exact hsets.field
    rw [store_eq hsets.field]
    have hfill := (fill_eq_ok_iff_sets hfield (by rwa [htemplate])).2
      ⟨v, by rwa [htemplate], rfl⟩
    exact except_bind_eq_ok.2 ⟨_, hfill, rfl⟩

/-- One more record. -/
theorem step (h : Gathered ctx below scope rs ps) (hsets : Sets ctx below scope r template v) :
    Gathered ctx below scope (rs ++ [r])
      (put template.name ps (filled (held ps template) r v)) := by
  obtain ⟨htemplate, hname, hslots⟩ := h.held_spec hsets.field
  have hsame : sameName template.name r.name = true := hsets.field.sameName
  have hmem : ∀ q, q ∈ put template.name ps (filled (held ps template) r v) ↔
      q = filled (held ps template) r v ∨ q ∈ ps ∧ sameName q.name r.name = false := by
    intro q
    rw [mem_put h.distinct, sameName_congr hsame]
  have hlt := hsets.toNat_slot_lt hslots
  constructor
  case name_eq =>
    intro q hq
    rcases (hmem q).1 hq with rfl | ⟨hq, -⟩
    · exact hname.trans (congrArg (·.name) htemplate.symm)
    · exact h.name_eq q hq
  case slots =>
    intro q hq
    rcases (hmem q).1 hq with rfl | ⟨hq, -⟩
    · exact List.length_set.trans (hslots.trans (congrArg (·.slotCount) htemplate.symm))
    · exact h.slots q hq
  case field =>
    intro q hq
    rcases (hmem q).1 hq with rfl | ⟨hq, -⟩
    · obtain ⟨fields, hschema, hfind⟩ := hsets.field
      refine ⟨fields, hschema, ?_⟩
      simp only [filled, hname, sameName_congr hsame, htemplate]
      exact hfind
    · exact h.field q hq
  case distinct =>
    refine distinct_put ?_ h.distinct
    show sameName (held ps template).name template.name = true
    rw [hname]
    exact beq_self_eq_true _
  case asked =>
    intro q hq
    rcases (hmem q).1 hq with rfl | ⟨hq, -⟩
    · refine ⟨r, List.mem_append_right _ (List.mem_singleton_self r), ?_⟩
      show sameName (held ps template).name r.name = true
      rwa [hname]
    · obtain ⟨r', hr', hname'⟩ := h.asked q hq
      exact ⟨r', List.mem_append_left _ hr', hname'⟩
  case named =>
    intro r' hr'
    by_cases hr : sameName r'.name r.name = true
    · refine ⟨filled (held ps template) r v, (hmem _).2 (.inl rfl), ?_⟩
      show sameName (held ps template).name r'.name = true
      rwa [hname, sameName_congr hr]
    · rcases List.mem_append.1 hr' with hr' | hr'
      · obtain ⟨p, hp, hpname⟩ := h.named r' hr'
        refine ⟨p, (hmem p).2 (.inr ⟨hp, ?_⟩), hpname⟩
        rw [sameName_comm, sameName_congr hpname, sameName_comm]
        exact Bool.eq_false_iff.2 hr
      · rw [List.mem_singleton.1 hr'] at hr
        exact absurd (beq_self_eq_true _) hr
  case last =>
    intro q hq slot w
    rw [lastFor_concat]
    rcases (hmem q).1 hq with rfl | ⟨hq, hother⟩
    · have hfor : r.isFor (held ps template).name slot = true ↔ slot = r.slot.toNat := by
        have hnonneg := hsets.nonneg
        rw [PropertyRecord.isFor, hname, sameName_comm, hsame, Bool.true_and, beq_iff_eq]
        omega
      rw [get?_filled hlt]
      show _ ↔ ∃ r' template', (if r.isFor (held ps template).name slot then some r
        else lastFor (held ps template).name slot rs) = some r' ∧ _
      by_cases hslot : slot = r.slot.toNat
      · rw [if_pos hslot, if_pos (hfor.2 hslot)]
        constructor
        · rintro ⟨⟩
          exact ⟨r, template, rfl, hsets⟩
        · rintro ⟨r', template', ⟨⟩, hsets'⟩
          rw [(hsets.unique hsets').2]
      · rw [if_neg hslot, if_neg (fun hr => hslot (hfor.1 hr)), h.held_last hsets.field, hname]
    · have hfor : ¬r.isFor q.name slot = true := by
        rw [PropertyRecord.isFor, sameName_comm, hother, Bool.false_and]
        exact Bool.false_ne_true
      rw [if_neg hfor]
      exact h.last q hq slot w

/-- The records of a list can be stored exactly when each of them sets its slot. -/
theorem exists_foldlM_iff (h : Gathered ctx below scope rs ps) (more : List PropertyRecord) :
    (∃ ps', more.foldlM (below.store ctx scope) ps = .ok ps') ↔
      ∀ r ∈ more, ∃ template v, Sets ctx below scope r template v := by
  induction more generalizing rs ps with
  | nil => exact ⟨fun _ => nofun, fun _ => ⟨ps, rfl⟩⟩
  | cons r more ih =>
    simp only [List.foldlM_cons, except_bind_eq_ok, List.forall_mem_cons]
    constructor
    · rintro ⟨ps', done, hstore, hmore⟩
      obtain ⟨template, v, hsets, rfl⟩ := h.store_eq_ok_iff.1 hstore
      exact ⟨⟨template, v, hsets⟩, (ih (h.step hsets)).1 ⟨ps', hmore⟩⟩
    · rintro ⟨⟨template, v, hsets⟩, hmore⟩
      obtain ⟨ps', hps'⟩ := (ih (h.step hsets)).2 hmore
      exact ⟨ps', _, h.store_eq_ok_iff.2 ⟨template, v, hsets, rfl⟩, hps'⟩

/-- Records that were stored made what they set. -/
theorem run (h : Gathered ctx below scope rs ps) {more : List PropertyRecord}
    {ps' : List Property} (hrun : more.foldlM (below.store ctx scope) ps = .ok ps') :
    Gathered ctx below scope (rs ++ more) ps' := by
  induction more generalizing rs ps with
  | nil =>
    cases hrun
    rwa [List.append_nil]
  | cons r more ih =>
    rw [List.foldlM_cons] at hrun
    obtain ⟨done, hstore, hmore⟩ := except_bind_eq_ok.1 hrun
    obtain ⟨template, v, hsets, rfl⟩ := h.store_eq_ok_iff.1 hstore
    have hrest := ih (h.step hsets) hmore
    rwa [List.append_assoc] at hrest

/-- Every property that some records make is made by others with the same last ones. -/
theorem mem_of_lastFor_eq {rs' : List PropertyRecord} {ps' : List Property}
    (h : Gathered ctx below scope rs ps) (h' : Gathered ctx below scope rs' ps')
    (hmem : ∀ r ∈ rs, r ∈ rs') (hlast : ∀ name slot, lastFor name slot rs = lastFor name slot rs')
    (hp : p ∈ ps) : p ∈ ps' := by
  obtain ⟨r, hr, hpr⟩ := h.asked p hp
  obtain ⟨q, hq, hqr⟩ := h'.named r (hmem r hr)
  have hname : sameName p.name q.name = true := by
    rw [sameName_iff, sameName_iff.1 hpr, sameName_iff.1 hqr]
  have htemplate := (h.field p hp).eq (h'.field q hq) hname
  have hget : ∀ slot, p.get? slot = q.get? slot := fun slot => Option.ext fun v => by
    rw [h.last p hp, h'.last q hq, hlast, lastFor_congr hname]
  have hsame : p = q := Property.ext_get?
    (by rw [h.name_eq p hp, h'.name_eq q hq, htemplate]) htemplate
    (by rw [h.slots p hp, h'.slots q hq, htemplate]) hget
  exact hsame ▸ hq

theorem nodup (h : Gathered ctx below scope rs ps) : ps.Nodup := by
  refine h.distinct.imp fun {p q} hne heq => ?_
  rw [heq] at hne
  exact Bool.false_ne_true (hne.symm.trans (beq_self_eq_true _))

/-- The same records in another order make the same properties, if those for one slot stay in
order. -/
theorem perm {rs' : List PropertyRecord} {ps' : List Property}
    (h : Gathered ctx below scope rs ps) (h' : Gathered ctx below scope rs' ps')
    (hmem : ∀ r, r ∈ rs ↔ r ∈ rs')
    (hlast : ∀ name slot, lastFor name slot rs = lastFor name slot rs') : ps.Perm ps' :=
  (List.perm_ext_iff_of_nodup h.nodup h'.nodup).2 fun _ =>
    ⟨h.mem_of_lastFor_eq h' (fun r => (hmem r).1) hlast,
      h'.mem_of_lastFor_eq h (fun r => (hmem r).2) fun name slot => (hlast name slot).symm⟩

end Gathered

end PropertyReaders

end UnrealPackage
