import Mathlib.Data.List.Perm.Subperm
import UnrealPackage.Proofs.Property.Consult
import UnrealPackage.Proofs.Property.Framing
import UnrealPackage.Proofs.Property.Gathering
/-!
# The values that are set in a property list

`PropertyValue.placedFields` lists every value that is set in a property list, those nested in
others too, each with the number of arrays and property lists of structs that it lies inside. Every
one of them was paid for with a byte when the list was read, and none of them lies deeper than there
are levels of nesting (`PropertyReaders.pays_ofLevels`).

A record pays for the one value that it sets, and a property that is read again loses the value that
stood in the slot before. So a record never adds more than its own value (`placedFields_put`), and
the bound of a list is the sum of its records (`Gathered.afforded`).
-/

namespace UnrealPackage

open Decode

/-! ## Values and what they lie inside -/

/-- A value that is set somewhere in a property list. -/
structure PlacedValue where
  value : PropertyValue
  /-- The number of arrays and of property lists of structs that the value lies inside. -/
  depth : Nat

mutual

/-- The value at a depth, and all that are nested in it. -/
def PropertyValue.placed (depth : Nat) : PropertyValue → List PlacedValue
  | .array elements => ⟨.array elements, depth⟩ :: PropertyValue.placedElements (depth + 1) elements
  | .struct fields => ⟨.struct fields, depth⟩ :: PropertyValue.placedFields (depth + 1) fields
  | v => [⟨v, depth⟩]

def PropertyValue.placedElements (depth : Nat) : List PropertyValue → List PlacedValue
  | [] => []
  | v :: vs => v.placed depth ++ PropertyValue.placedElements depth vs

/-- The values that are set in properties at a depth, and all that are nested in them. -/
def PropertyValue.placedFields (depth : Nat) : List (PropertyOf PropertyValue) → List PlacedValue
  | [] => []
  | ⟨_, _, values⟩ :: ps =>
    PropertyValue.placedSlots depth values ++ PropertyValue.placedFields depth ps

def PropertyValue.placedSlots (depth : Nat) : List (Option PropertyValue) → List PlacedValue
  | [] => []
  | none :: vs => PropertyValue.placedSlots depth vs
  | some v :: vs => v.placed depth ++ PropertyValue.placedSlots depth vs

end

namespace PropertyValue

/-- The values in slots that are set are placed one after the other. -/
theorem placedSlots_eq_flatMap (depth : Nat) (vs : List (Option PropertyValue)) :
    placedSlots depth vs = vs.flatMap fun slot => slot.elim [] (placed depth) := by
  induction vs with
  | nil => rfl
  | cons slot vs ih =>
    cases slot <;> rw [placedSlots, ih, List.flatMap_cons] <;> rfl

theorem placedFields_eq_flatMap (depth : Nat) (ps : List Property) :
    placedFields depth ps = ps.flatMap fun p => placedSlots depth p.values := by
  induction ps with
  | nil => rfl
  | cons p ps ih => rw [placedFields, ih, List.flatMap_cons]

theorem length_placed_pos (v : PropertyValue) (depth : Nat) : 0 < (v.placed depth).length := by
  cases v <;> exact Nat.succ_pos _

/-- Nothing is set in a property that is added. -/
theorem placedSlots_empty (depth : Nat) (template : FieldTemplate) :
    placedSlots depth (Property.empty template).values = [] := by
  rw [placedSlots_eq_flatMap, List.flatMap_eq_nil_iff]
  intro slot hslot
  rw [List.eq_of_mem_replicate hslot]
  rfl

end PropertyValue

open PropertyValue

/-! ## Values that bytes pay for -/

/-- Whether there is a byte for each of the values, and none of them lies as deep as `ceiling`. -/
structure Afforded (bytes ceiling : Nat) (values : List PlacedValue) : Prop where
  length_le : values.length ≤ bytes
  depth_lt : ∀ x ∈ values, x.depth < ceiling

namespace Afforded

variable {bytes bytes' ceiling : Nat} {x : PlacedValue} {xs ys : List PlacedValue}

theorem nil : Afforded bytes ceiling [] :=
  ⟨Nat.zero_le _, nofun⟩

theorem mono (h : Afforded bytes ceiling xs) (hle : bytes ≤ bytes') : Afforded bytes' ceiling xs :=
  ⟨Nat.le_trans h.length_le hle, h.depth_lt⟩

theorem cons (hx : x.depth < ceiling) (h : Afforded bytes ceiling xs) :
    Afforded (bytes + 1) ceiling (x :: xs) :=
  ⟨Nat.succ_le_succ h.length_le, List.forall_mem_cons.2 ⟨hx, h.depth_lt⟩⟩

theorem append (h : Afforded bytes ceiling xs) (h' : Afforded bytes' ceiling ys) :
    Afforded (bytes + bytes') ceiling (xs ++ ys) := by
  refine ⟨?_, List.forall_mem_append.2 ⟨h.depth_lt, h'.depth_lt⟩⟩
  rw [List.length_append]
  exact Nat.add_le_add h.length_le h'.length_le

/-- What is found among values that are paid for is paid for. -/
theorem subperm (h : Afforded bytes ceiling ys) (hs : xs.Subperm ys) : Afforded bytes ceiling xs :=
  ⟨Nat.le_trans hs.length_le h.length_le, fun x hx => h.depth_lt x (hs.subset hx)⟩

end Afforded

/-- Whether `d` takes a byte off its input for each of the values in what it gives, and none of
these lies as deep as `ceiling`. -/
def Decode.Pays {α : Type} (ceiling : Nat) (values : α → List PlacedValue) (d : Decode α) : Prop :=
  ∀ ⦃input a rest⦄, d input = .ok (a, rest) →
    ∃ front, input = front ++ rest ∧ Afforded front.length ceiling (values a)

namespace Decode.Pays

variable {α : Type} {ceiling depth : Nat} {e : Error}

/-- A value that holds no others, and takes a byte at least. -/
theorem single {d : Decode PropertyValue} (hd : Framed d) (hempty : d [] = .error e)
    (hdepth : depth < ceiling)
    (hvalue : ∀ ⦃input v rest⦄, d input = .ok (v, rest) → v.placed depth = [⟨v, depth⟩]) :
    Pays ceiling (placed depth) d := by
  intro input v rest h
  obtain ⟨front, rfl, hreads⟩ := hd h
  refine ⟨front, rfl, ?_⟩
  rw [hvalue h]
  exact (Afforded.nil.cons hdepth).mono (List.length_pos_iff.2 (hreads.ne_nil hempty))

/-- A value made of one number or text. -/
theorem leaf {d : Decode α} {make : α → PropertyValue} (hd : Framed d) (hempty : d [] = .error e)
    (hdepth : depth < ceiling) (hvalue : ∀ a, (make a).placed depth = [⟨make a, depth⟩]) :
    Pays ceiling (placed depth) (make <$> d) := by
  refine .single (hd.map make) (e := e) ?_ hdepth fun input v rest h => ?_
  · show (d [] >>= fun p => pure (make p.1, p.2)) = _
    rw [hempty, except_error_bind]
  · obtain ⟨a, -, rfl⟩ := map_eq_ok.1 h
    exact hvalue a

/-- Items in a row pay for what each of them gives. -/
theorem times {item : Decode PropertyValue} (h : Pays ceiling (placed depth) item) (n : Nat) :
    Pays ceiling (placedElements depth) (Decode.times item n) := by
  induction n with
  | zero =>
    intro input vs rest ht
    obtain ⟨rfl, rfl⟩ := pure_eq_ok.1 ht
    exact ⟨[], rfl, .nil⟩
  | succ n ih =>
    intro input vs rest ht
    obtain ⟨v, middle, hv, ht⟩ := bind_eq_ok.1 ht
    obtain ⟨vs', middle', hvs, ht⟩ := bind_eq_ok.1 ht
    obtain ⟨rfl, rfl⟩ := pure_eq_ok.1 ht
    obtain ⟨front, rfl, hpaid⟩ := h hv
    obtain ⟨more, rfl, hpaid'⟩ := ih hvs
    refine ⟨front ++ more, (List.append_assoc _ _ _).symm, ?_⟩
    rw [List.length_append]
    exact hpaid.append hpaid'

end Decode.Pays

/-! ## Values that are read -/

/-- Whether the readers take a byte for each value that is set in what they give at a depth, and one
more for the end of a list. -/
structure PropertyReaders.Pay (readers : PropertyReaders) (ceiling depth : Nat) : Prop where
  list : ∀ {scope input ps rest}, readers.list scope input = .ok (ps, rest) →
    ∃ front, input = front ++ rest ∧ ∃ bytes, bytes < front.length ∧
      Afforded bytes ceiling (placedFields depth ps)
  element : ∀ kind, (readers.element kind).Pays ceiling (placed depth)

namespace PropertyReaders

variable {ctx : PropertyContext} {cs : Charset} {below : PropertyReaders} {ceiling depth : Nat}
  {scope spelled structName : String} {r : PropertyRecord} {template : FieldTemplate}
  {rs : List PropertyRecord} {ps ps' : List Property} {v : PropertyValue}

/-- A plain struct holds no other values. -/
theorem placed_of_plainStruct {plain : PlainStruct} {input rest : List UInt8}
    (h : plainStruct plain input = .ok (v, rest)) : v.placed depth = [⟨v, depth⟩] := by
  have hv := plainStruct_eq_ok h
  cases plain with
  | vector =>
    obtain ⟨x, y, z, rfl⟩ := hv
    rfl
  | rotator =>
    obtain ⟨pitch, yaw, roll, rfl⟩ := hv
    rfl
  | color =>
    obtain ⟨b, g, r, a, rfl⟩ := hv
    rfl

/-- A struct pays for itself with the end of its list. -/
theorem pays_struct (hbelow : below.Pay ceiling (depth + 1)) (hdepth : depth < ceiling) :
    Decode.Pays ceiling (placed depth) (match PlainStruct.ofName? spelled with
      | some plain => plainStruct plain
      | none => PropertyValue.struct <$> below.list structName) := by
  split
  · next plain _ =>
    have hempty : plainStruct plain [] = .error .truncated := by cases plain <;> rfl
    exact .single (framed_plainStruct plain) hempty hdepth fun _ _ _ h => placed_of_plainStruct h
  · intro input v rest h
    obtain ⟨fields, hfields, rfl⟩ := map_eq_ok.1 h
    obtain ⟨front, rfl, bytes, hlt, hpaid⟩ := hbelow.list hfields
    exact ⟨front, rfl, (hpaid.cons (x := ⟨.struct fields, depth⟩) hdepth).mono hlt⟩

/-- An array pays for itself with the number of its elements. -/
theorem pays_elements (hbelow : below.Pay ceiling (depth + 1)) (hdepth : depth < ceiling)
    (inner : PropertyKind) : (below.elements inner).Pays ceiling (placed depth) := by
  intro input v rest h
  obtain ⟨count, middle, hcount, h⟩ := bind_eq_ok.1 h
  obtain ⟨es, hes, rfl⟩ := map_eq_ok.1 h
  obtain ⟨front, rfl, hreads⟩ := framed_compact hcount
  obtain ⟨more, rfl, hpaid⟩ := (hbelow.element inner).times _ hes
  refine ⟨front ++ more, (List.append_assoc _ _ _).symm, ?_⟩
  have hpos := List.length_pos_iff.2 (hreads.ne_nil rfl)
  rw [List.length_append]
  exact (hpaid.cons (x := ⟨.array es, depth⟩) hdepth).mono (by omega)

/-- An element pays for the values placed in it, one level below those around it. -/
theorem pays_readElement (hbelow : below.Pay ceiling (depth + 1)) (hdepth : depth < ceiling)
    (kind : PropertyKind) : (readElement cs below kind).Pays ceiling (placed depth) := by
  cases kind with
  | byte => exact .leaf framed_u8 rfl hdepth fun _ => rfl
  | int => exact .leaf framed_i32 rfl hdepth fun _ => rfl
  | bool => exact .leaf framed_u8 rfl hdepth fun _ => rfl
  | float => exact .leaf (framed_u32.map _) rfl hdepth fun _ => rfl
  | object _ => exact .leaf framed_compactRef rfl hdepth fun _ => rfl
  | classRef => exact .leaf framed_compactRef rfl hdepth fun _ => rfl
  | name => exact .leaf framed_compact rfl hdepth fun _ => rfl
  | str => exact .leaf (framed_text cs) rfl hdepth fun _ => rfl
  | array _ inner _ => exact pays_elements hbelow hdepth inner
  | struct structName => exact pays_struct hbelow hdepth
  | delegate | map | fixedArray | pointer => exact nofun

/-- But for booleans, what is read from a payload is paid for by the payload. -/
theorem pays_readPayload (hbelow : below.Pay ceiling (depth + 1)) (hdepth : depth < ceiling)
    {kind : PropertyKind} {mismatch : Error} {expected : PropertyTag} (hbool : kind ≠ .bool)
    (htag : PropertyTag.ofKind kind = .ok expected) (haccepts : r.tag.accepts expected = true) :
    (readPayload cs below r kind mismatch).Pays ceiling (placed depth) := by
  by_cases hstruct : ∃ structName, kind = .struct structName
  · obtain ⟨structName, rfl⟩ := hstruct
    cases htag
    unfold readPayload
    rw [PropertyTag.eq_of_accepts haccepts (by decide)]
    exact pays_struct hbelow hdepth
  · have hstruct : ∀ structName, kind ≠ .struct structName := fun s hs => hstruct ⟨s, hs⟩
    rw [readPayload_eq_readElement_of_accepts htag haccepts hbool hstruct]
    exact pays_readElement hbelow hdepth kind

/-- The byte that a record takes besides its payload pays for a boolean, which has no payload. -/
theorem Sets.afforded (hbelow : below.Pay ceiling (depth + 1)) (hdepth : depth < ceiling)
    (h : Sets ctx below scope r template v) :
    Afforded (r.payload.length + 1) ceiling (v.placed depth) := by
  obtain ⟨expected, htag, haccepts⟩ := h.tag
  obtain ⟨rest, hread⟩ := h.value
  by_cases hbool : template.kind = .bool
  · rw [hbool] at htag hread
    cases htag
    unfold readPayload at hread
    rw [PropertyTag.eq_of_accepts haccepts (by decide)] at hread
    obtain ⟨rfl, -⟩ := pure_eq_ok.1 hread
    exact (Afforded.nil.cons hdepth).mono (Nat.le_add_left _ _)
  · obtain ⟨front, hfront, hpaid⟩ := pays_readPayload hbelow hdepth hbool htag haccepts hread
    have hlength := congrArg List.length hfront
    rw [List.length_append] at hlength
    exact hpaid.mono (by omega)

/-! ## Records that are gathered -/

/-- An item that takes the place of another in a list adds no more than it has beyond that one. -/
theorem flatMap_set_subperm {α β : Type} {f : α → List β} {l : List α} {i : Nat} {a : α}
    {extra : List β} (h : ∀ old, l[i]? = some old → (f a).Subperm (f old ++ extra)) :
    ((l.set i a).flatMap f).Subperm (l.flatMap f ++ extra) := by
  induction l generalizing i with
  | nil => exact List.nil_subperm
  | cons x l ih =>
    cases i with
    | zero =>
      rw [List.set_cons_zero, List.flatMap_cons, List.flatMap_cons, List.append_assoc]
      have hswap : (f x ++ extra ++ l.flatMap f).Perm (f x ++ (l.flatMap f ++ extra)) := by
        rw [List.append_assoc]
        exact .append_left _ List.perm_append_comm
      exact (hswap.subperm_left).1 ((List.subperm_append_right _).2 (h x rfl))
    | succ i =>
      rw [List.set_cons_succ, List.flatMap_cons, List.flatMap_cons, List.append_assoc]
      exact (List.subperm_append_left _).2 (ih h)

/-- A property that is filled once more has its value more at most. -/
theorem placedSlots_filled (depth : Nat) (p : Property) (r : PropertyRecord) (v : PropertyValue) :
    (placedSlots depth (filled p r v).values).Subperm
      (placedSlots depth p.values ++ v.placed depth) := by
  rw [placedSlots_eq_flatMap, placedSlots_eq_flatMap]
  exact flatMap_set_subperm fun old _ => (List.sublist_append_right _ _).subperm

/-- A record adds no more than its own value. -/
theorem placedFields_put (ps : List Property) (template : FieldTemplate) (r : PropertyRecord)
    (v : PropertyValue) :
    (placedFields depth (put template.name ps (filled (held ps template) r v))).Subperm
      (placedFields depth ps ++ v.placed depth) := by
  rw [placedFields_eq_flatMap, placedFields_eq_flatMap]
  unfold put held
  rw [List.find?_eq_bind_findIdx?_getElem?]
  cases ps.findIdx? fun q => sameName q.name template.name with
  | some i =>
    refine flatMap_set_subperm fun old hold => ?_
    rw [Option.bind_some, hold]
    exact placedSlots_filled depth old r v
  | none =>
    have hfilled := placedSlots_filled depth (.empty template) r v
    rw [placedSlots_empty, List.nil_append] at hfilled
    rw [Option.bind_none]
    dsimp only
    rw [List.flatMap_append, List.flatMap_singleton]
    exact (List.subperm_append_left _).2 hfilled

/-- Records in a row pay for the values that they leave. -/
theorem Gathered.afforded {bytes : Nat} (hbelow : below.Pay ceiling (depth + 1))
    (hdepth : depth < ceiling) (h : Gathered ctx below scope rs ps)
    (hpaid : Afforded bytes ceiling (placedFields depth ps))
    {more : List (FramedRecord ctx.tables)}
    (hrun : (more.map FramedRecord.record).foldlM (below.store ctx scope) ps = .ok ps') :
    Afforded (bytes + (more.flatMap FramedRecord.bytes).length) ceiling
      (placedFields depth ps') := by
  induction more generalizing rs ps bytes with
  | nil =>
    cases hrun
    exact hpaid
  | cons f more ih =>
    rw [List.map_cons, List.foldlM_cons] at hrun
    obtain ⟨done, hstore, hmore⟩ := except_bind_eq_ok.1 hrun
    obtain ⟨template, v, hsets, rfl⟩ := h.store_eq_ok_iff.1 hstore
    have hstep := (hpaid.append (hsets.afforded hbelow hdepth)).subperm
      (placedFields_put ps template f.record v)
    have hlength : f.record.payload.length + 1 ≤ f.bytes.length := by
      simp [FramedRecord.record, FramedRecord.bytes]
      omega
    rw [List.flatMap_cons, List.length_append, ← Nat.add_assoc]
    exact ih (h.step hsets) (hstep.mono (Nat.add_le_add_left hlength _)) hmore

/-! ## Levels -/

/-- At a depth, the readers that follow so many levels of nesting go no further than these. -/
theorem pays_ofLevels (ctx : PropertyContext) (levels depth : Nat) :
    (ofLevels ctx levels).Pay (depth + levels) depth := by
  induction levels generalizing depth with
  | zero => exact ⟨nofun, fun _ => nofun⟩
  | succ levels ih =>
    have hdepth : depth < depth + (levels + 1) := by omega
    have hbelow : (ofLevels ctx levels).Pay (depth + (levels + 1)) (depth + 1) := by
      rw [Nat.add_comm levels 1, ← Nat.add_assoc]
      exact ih (depth + 1)
    constructor
    · intro scope input ps rest h
      obtain ⟨rs, ending, hending, rfl, hrun⟩ := list_eq_ok_iff.1 h
      refine ⟨rs.flatMap FramedRecord.bytes ++ ending, (List.append_assoc _ _ _).symm,
        (rs.flatMap FramedRecord.bytes).length, ?_, ?_⟩
      · rw [List.length_append]
        exact Nat.lt_add_of_pos_right (List.length_pos_iff.2 hending.ne_nil)
      · have hempty : Afforded 0 (depth + (levels + 1)) (placedFields depth []) := .nil
        have hpaid := gathered_nil.afforded hbelow hdepth hempty hrun
        rwa [Nat.zero_add] at hpaid
    · exact pays_readElement hbelow hdepth

end PropertyReaders

end UnrealPackage
