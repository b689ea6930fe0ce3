import UnrealPackage.Proofs.Property.Values
/-!
# Records put back into properties

A list is written slot by slot, and the reader meets one record for each slot that is set. It finds
out which property a record belongs to from the name alone: the first record of a property adds the
template that the schema has for it, the others go to what was added.

`Property.upTo p slot` is the property in the middle of this, with the first slots read and the
others not, and `Property.after done p slot` all that was read by then. A step lemma takes the state
over one slot; `readRecords` reaches the end of the list by `Advances`, its steps joined.
-/

namespace UnrealPackage

namespace Property

/-- The property as it is read when the records of its first `slot` slots were. -/
def upTo (p : Property) (slot : Nat) : Property :=
  { p with values := (p.values.take slot).map (Option.map PropertyValue.prune) ++
      List.replicate (p.values.length - slot) none }

/-- What is read when the records of the first `slot` slots of `p` were: nothing of `p` if none of
them is set. -/
def after (done : List Property) (p : Property) (slot : Nat) : List Property :=
  if (p.values.take slot).any Option.isSome then done ++ [p.upTo slot] else done

variable {p : Property} {slot : Nat}

/-- Before its first slot that is set, a property is what the schema's template makes of it. -/
theorem upTo_eq_empty (hname : p.name = p.template.name)
    (hslots : p.values.length = p.template.slotCount) (hslot : slot ≤ p.values.length)
    (hnone : (p.values.take slot).any Option.isSome = false) :
    p.upTo slot = empty p.template := by
  have hmap : (p.values.take slot).map (Option.map PropertyValue.prune) =
      List.replicate slot none := by
    refine List.eq_replicate_iff.2 ⟨?_, fun x hx => ?_⟩
    · rw [List.length_map, List.length_take, Nat.min_eq_left hslot]
    obtain ⟨y, hy, rfl⟩ := List.mem_map.1 hx
    have hfalse := List.any_eq_false.1 hnone y hy
    cases y with
    | none => rfl
    | some v => exact absurd rfl hfalse
  have hsum : slot + (p.values.length - slot) = p.template.slotCount := by omega
  rw [upTo, hmap, List.replicate_append_replicate, hsum, empty, hname]

/-- What is read of a property with one more slot: the slots before it, its value, and as many
empty slots as are left. -/
theorem upTo_succ_values {x : Option PropertyValue} (hx : p.values[slot]? = some x) :
    ∃ left, p.values.length - slot = left + 1 ∧ (p.upTo (slot + 1)).values =
      (p.values.take slot).map (Option.map PropertyValue.prune) ++
        x.map PropertyValue.prune :: List.replicate left none := by
  obtain ⟨hlt, -⟩ := List.getElem?_eq_some_iff.1 hx
  have hleft : p.values.length - (slot + 1) = p.values.length - slot - 1 := by omega
  refine ⟨p.values.length - slot - 1, by omega, ?_⟩
  simp only [upTo, hleft, List.take_add_one, hx, Option.toList_some, List.map_append,
    List.map_cons, List.map_nil, List.append_assoc, List.singleton_append]

/-- A value that was read is put in its place. -/
theorem upTo_succ {x : Option PropertyValue} (hx : p.values[slot]? = some x) :
    { p.upTo slot with values := (p.upTo slot).values.set slot (x.map PropertyValue.prune) } =
      p.upTo (slot + 1) := by
  obtain ⟨left, hleft, hvalues⟩ := upTo_succ_values hx
  have hlength : ((p.values.take slot).map (Option.map PropertyValue.prune)).length = slot := by
    rw [List.length_map, List.length_take]
    omega
  have hset : (p.upTo slot).values.set slot (x.map PropertyValue.prune) =
      (p.upTo (slot + 1)).values := by
    rw [hvalues, upTo, hleft, List.set_append_right _ _ (Nat.le_of_eq hlength), hlength,
      Nat.sub_self, List.replicate_succ, List.set_cons_zero]
  rw [hset]
  rfl

/-- A slot that is not set is left as it was. -/
theorem upTo_succ_of_none (hx : p.values[slot]? = some none) : p.upTo (slot + 1) = p.upTo slot := by
  obtain ⟨left, hleft, hvalues⟩ := upTo_succ_values hx
  have hsame : (p.upTo (slot + 1)).values = (p.upTo slot).values := by
    rw [hvalues, upTo, hleft, List.replicate_succ]
    rfl
  show { p with values := (p.upTo (slot + 1)).values } = _
  rw [hsame]
  rfl

theorem upTo_length : p.upTo p.values.length =
    { p with values := PropertyValue.pruneSlots p.values } := by
  rw [upTo, List.take_length, Nat.sub_self, PropertyValue.pruneSlots_eq_map]
  simp

theorem after_succ_of_none (done : List Property) (hx : p.values[slot]? = some none) :
    p.after done (slot + 1) = p.after done slot := by
  rw [after, after, upTo_succ_of_none hx, List.take_add_one, hx, List.any_append]
  simp

theorem after_zero (done : List Property) (p : Property) : p.after done 0 = done := by
  rw [after, List.take_zero, List.any_nil]
  rfl

/-- All that is read when every record of `p` was. -/
theorem after_length (done : List Property) (p : Property) :
    p.after done p.values.length = done ++ PropertyValue.pruneFields [p] := by
  obtain ⟨ownName, template, values⟩ := p
  rw [after, upTo_length, List.take_length, PropertyValue.pruneFields]
  split
  · rfl
  · rw [PropertyValue.pruneFields, List.append_nil]

end Property

namespace PropertyReaders

open Property Decode

variable {ctx : PropertyContext} {below : PropertyReaders} {fits : PropertyFits} {scope : String}
  {p : Property} {done : List Property} {slot : Nat}

/-! ## One record -/

/-- A property is found among those read so far, or added from the schema's template of its name. -/
theorem place_after {spelled : String} (hp : fits.Property ctx scope p)
    (hslot : slot ≤ p.values.length) (hdone : ∀ q ∈ done, sameName q.name p.name = false)
    (hname : sameName spelled p.name = true) :
    place ctx.schema scope spelled (p.after done slot) =
      .ok (done.length, done ++ [p.upTo slot]) := by
  have hsame : ∀ name, sameName name spelled = sameName name p.name := fun _ => sameName_congr hname
  have hnone : done.findIdx? (fun q => sameName q.name p.name) = none :=
    List.findIdx?_eq_none_iff.2 hdone
  unfold place
  simp only [hsame]
  by_cases hany : (p.values.take slot).any Option.isSome = true
  · have hfind : (done ++ [p.upTo slot]).findIdx? (fun q => sameName q.name p.name) =
        some done.length := by
      have hself : sameName (p.upTo slot).name p.name = true := beq_self_eq_true _
      rw [List.findIdx?_append, hnone, List.findIdx?_cons, if_pos hself]
      simp
    rw [after, if_pos hany, hfind]
    rfl
  · obtain ⟨fields, hschema, hfield⟩ := hp.field
    have hempty := upTo_eq_empty hp.name_eq hp.slots hslot (Bool.eq_false_iff.2 hany)
    rw [after, if_neg hany, hnone]
    dsimp only
    rw [hschema, except_ok_bind, hfield, hempty]
    rfl

theorem accepts_self (tag : PropertyTag) : tag.accepts tag = true := by
  cases tag <;> rfl

/-- A record fills the next slot of its property. -/
theorem fill_upTo {r : PropertyRecord} {v : PropertyValue}
    (htag : PropertyTag.ofKind p.template.kind = .ok r.tag) (hslot : r.slot = slot)
    (hv : p.values[slot]? = some (some v))
    (hread : ∀ mismatch, below.readPayload ctx.charset r p.template.kind mismatch r.payload =
      .ok (v.prune, [])) :
    below.fill ctx.charset scope r (p.upTo slot) = .ok (p.upTo (slot + 1)) := by
  obtain ⟨hlt, -⟩ := List.getElem?_eq_some_iff.1 hv
  have hlength : (p.upTo slot).values.length = p.values.length := by
    rw [upTo, List.length_append, List.length_map, List.length_take, List.length_replicate]
    omega
  have hindex : r.slot.toNat = slot := by omega
  refine fill_eq_ok_iff.2 ⟨r.tag, v.prune, [], htag, accepts_self r.tag, by omega, by omega,
    hread _, ?_⟩
  rw [hindex, ← upTo_succ hv]
  rfl

/-- The state of the reader is taken over one slot that is set. -/
theorem store_after {r : PropertyRecord} {v : PropertyValue} (hp : fits.Property ctx scope p)
    (hdone : ∀ q ∈ done, sameName q.name p.name = false) (hname : sameName r.name p.name = true)
    (htag : PropertyTag.ofKind p.template.kind = .ok r.tag) (hslot : r.slot = slot)
    (hv : p.values[slot]? = some (some v))
    (hread : ∀ mismatch, below.readPayload ctx.charset r p.template.kind mismatch r.payload =
      .ok (v.prune, [])) :
    below.store ctx scope (p.after done slot) r = .ok (p.after done (slot + 1)) := by
  obtain ⟨hlt, -⟩ := List.getElem?_eq_some_iff.1 hv
  have hany : (p.values.take (slot + 1)).any Option.isSome = true := by
    rw [List.take_add_one, hv, List.any_append]
    simp
  have hlast : (done ++ [p.upTo slot])[done.length]? = some (p.upTo slot) := by simp
  have hset : (done ++ [p.upTo slot]).set done.length (p.upTo (slot + 1)) =
      p.after done (slot + 1) := by
    rw [after, if_pos hany, List.set_append_right _ _ (Nat.le_refl _), Nat.sub_self,
      List.set_cons_zero]
  unfold store
  rw [place_after hp (Nat.le_of_lt hlt) hdone hname, except_ok_bind]
  dsimp only
  rw [hlast]
  dsimp only
  rw [fill_upTo htag hslot hv hread, except_ok_bind, hset]
  rfl

/-! ## Records in a row -/

/-- Reading records takes `bytes` off the input, whatever follows, and makes `done'` of what was
read before. It takes no more steps than there are bytes. -/
def Advances (ctx : PropertyContext) (below : PropertyReaders) (scope : String)
    (bytes : List UInt8) (done done' : List Property) : Prop :=
  ∀ rest bound, bytes.length < bound → ∃ bound', bound ≤ bound' + bytes.length ∧
    below.readRecords ctx scope bound done (bytes ++ rest) =
      below.readRecords ctx scope bound' done' rest

namespace Advances

variable {bytes more : List UInt8} {done' done'' : List Property}

theorem refl : Advances ctx below scope [] done done :=
  fun _ bound _ => ⟨bound, Nat.le_refl _, rfl⟩

/-- What advances a list twice advances it by both stretches of bytes. -/
theorem trans (h : Advances ctx below scope bytes done done')
    (h' : Advances ctx below scope more done' done'') :
    Advances ctx below scope (bytes ++ more) done done'' := by
  intro rest bound hbound
  rw [List.length_append] at hbound
  obtain ⟨bound', hle, hstep⟩ := h (more ++ rest) bound (by omega)
  obtain ⟨bound'', hle', hstep'⟩ := h' rest bound' (by omega)
  refine ⟨bound'', by rw [List.length_append]; omega, ?_⟩
  rw [List.append_assoc, hstep, hstep']

/-- A record is one step. -/
theorem record {r : PropertyRecord} (hne : bytes ≠ [])
    (hr : Reads (Decode.propertyRecord ctx.tables) bytes (some r))
    (hstore : below.store ctx scope done r = .ok done') :
    Advances ctx below scope bytes done done' := by
  intro rest bound hbound
  obtain ⟨bound, rfl⟩ : ∃ b, bound = b + 1 := ⟨bound - 1, by omega⟩
  have hpos := List.length_pos_iff.2 hne
  refine ⟨bound, by omega, ?_⟩
  show (Decode.propertyRecord ctx.tables (bytes ++ rest) >>= fun q => _) = _
  rw [hr]
  show (liftM (below.store ctx scope done r) >>= fun done => _ : Decode _) rest = _
  rw [hstore]
  rfl

/-- The end of the list is read after all of its records. -/
theorem reads_list {ending : List UInt8} (h : Advances ctx below scope bytes [] done)
    (hending : Reads (Decode.propertyRecord ctx.tables) ending none) :
    Reads (get >>= fun input => below.readRecords ctx scope (input.length + 1) [])
      (bytes ++ ending) done := by
  intro rest
  have hbound : bytes.length < (bytes ++ ending ++ rest).length + 1 := by
    simp only [List.length_append]
    omega
  obtain ⟨bound, hle, hsteps⟩ := h (ending ++ rest) _ hbound
  obtain ⟨bound, rfl⟩ : ∃ b, bound = b + 1 := by
    have hlength : bytes.length ≤ (bytes ++ ending ++ rest).length := by
      simp only [List.length_append]
      omega
    exact ⟨bound - 1, by omega⟩
  show below.readRecords ctx scope ((bytes ++ ending ++ rest).length + 1) [] _ = _
  rw [List.append_assoc] at hsteps ⊢
  rw [hsteps]
  show (Decode.propertyRecord ctx.tables (ending ++ rest) >>= fun q => _) = _
  rw [hending]
  rfl

end Advances

end PropertyReaders

end UnrealPackage
