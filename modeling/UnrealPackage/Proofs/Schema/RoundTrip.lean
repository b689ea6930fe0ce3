import UnrealPackage.Proofs.Json.RoundTrip
import UnrealPackage.Proofs.Schema.Members
/-!
# Schemas written and read back

`Schema.ofJson_toJson`: the text of a schema is read as that schema, in whatever order its structs
are written. It rests on two things. Names are in lower case and each stands once (`Schema.Keyed`),
which every way to make a schema sees to, so that reading folds nothing and drops nothing. And kinds
are nested only as deeply as a text may be (`Schema.Shallow`): a schema that was read is so
(`shallow_ofJson`), but a struct may be declared with kinds of any depth, and then its text is
refused (`ofJson_toJson_of_not_shallow`).
-/

namespace UnrealPackage
open Json

namespace Json

theorem readable_tagged {type : String} {members : List (String × Json)}
    (h : ∀ m ∈ members, Readable m.2) : Readable (tagged type members) :=
  .object (List.forall_mem_cons.2 ⟨.string type, h⟩)

theorem foldl_toDigits (n : Nat) :
    (Nat.toDigits 10 n).foldl (fun n c => n * 10 + (c.toNat - 48)) 0 = n := by
  have h := Nat.ofDigitChars_ten_toDigits (n := n)
  simp only [Nat.ofDigitChars, Nat.mul_comm 10] at h
  exact h

/-- A natural number is read back if it is no greater than the greatest allowed. -/
theorem natUpTo?_nat {greatest n : Nat} (h : n ≤ greatest) :
    natUpTo? greatest (nat n) = some n := by
  have hdigits : (toString n).toList.all Char.isDigit = true := by
    rw [Nat.toString_eq_ofList_toDigits, String.toList_ofList, List.all_eq_true]
    exact fun _ => isDigit_of_mem_toDigits
  have hvalue : (toString n).toList.foldl (fun n c => n * 10 + (c.toNat - 48)) 0 = n := by
    rw [Nat.toString_eq_ofList_toDigits, String.toList_ofList, foldl_toDigits]
  rw [nat, natUpTo?, if_pos hdigits, hvalue, if_pos h]

theorem natUpTo?_uint32 (n : UInt32) : natUpTo? 0xFFFFFFFF (nat n.toNat) = some n.toNat :=
  natUpTo?_nat (Nat.le_of_lt_succ n.toNat_lt)

/-- A number in decimal digits has no exponent. -/
theorem scientific_toDigits (n : Nat) : scientific (Nat.toDigits 10 n) = (n, 0) := by
  have hdigits : ∀ c ∈ Nat.toDigits 10 n, c.isDigit = true := fun _ => isDigit_of_mem_toDigits
  have htake := @List.takeWhile_append_of_pos _ Char.isDigit _ [] hdigits
  have hdrop := @List.dropWhile_append_of_pos _ Char.isDigit _ [] hdigits
  rw [List.append_nil] at htake hdrop
  simp [scientific, scientific.valueOf, htake, hdrop, foldl_toDigits]

/-- The numbers of a template are far below the greatest that may stand in a kind. -/
theorem isFinite_uint32 (n : UInt32) : isFinite (toString n.toNat) = true := by
  have hn : n.toNat * Nat.pow 10 0 < Nat.pow 2 1024 - Nat.pow 2 970 := by
    have hlimit : 2 ^ 32 ≤ Nat.pow 2 1024 - Nat.pow 2 970 := by decide +kernel
    exact Nat.lt_of_lt_of_le (Nat.mul_one _ ▸ n.toNat_lt) hlimit
  obtain ⟨c, cs, hfront⟩ := List.exists_cons_of_ne_nil
    (Nat.toDigits_ne_nil (n := n.toNat) (b := 10))
  have hdigit : c.isDigit = true := isDigit_of_mem_toDigits (hfront ▸ List.mem_cons_self)
  have hsign : (Nat.toDigits 10 n.toNat).dropWhile (· == '-') = Nat.toDigits 10 n.toNat := by
    rw [hfront]
    refine List.dropWhile_cons_of_neg fun h => ?_
    rw [eq_of_beq h] at hdigit
    exact absurd hdigit (by decide)
  rw [isFinite, Nat.toString_eq_ofList_toDigits, String.toList_ofList, hsign, scientific_toDigits]
  dsimp only
  split
  · rfl
  · rw [if_neg (by decide), if_pos (by decide)]
    exact decide_eq_true hn

/-- A member is found by its name if no other has it. -/
theorem lookup_of_nodup {α : Type} {members : List (String × α)}
    (h : (members.map Prod.fst).Nodup) {m : String × α} (hm : m ∈ members) :
    members.lookup m.1 = some m.2 := by
  induction members with
  | nil => cases hm
  | cons m' members ih =>
    rw [List.map_cons, List.nodup_cons] at h
    rw [List.lookup_cons]
    rcases List.mem_cons.1 hm with rfl | hm
    · rw [beq_self_eq_true]
    · have hne : m.1 ≠ m'.1 := fun heq => h.1 (heq ▸ List.mem_map_of_mem hm)
      rw [beq_false_of_ne hne]
      exact ih h.2 hm

/-- A record written as an object with each of its members is read as these. -/
theorem record?_object {members : List (String × Json)} {keys : List String}
    (hkeys : members.map Prod.fst = keys) (h : keys.Nodup) :
    record? keys (.object members) = some (members.map fun m => some m.2) := by
  subst hkeys
  have hunique : ((members.map Prod.fst).all fun key =>
      (members.filter (·.1 == key)).length ≤ 1) = true := by
    rw [List.all_eq_true]
    intro key _
    have hcount := List.nodup_iff_count.1 h key
    rw [List.count_eq_length_filter, List.filter_map, List.length_map] at hcount
    exact decide_eq_true hcount
  rw [record?, if_pos hunique, List.map_map]
  exact congrArg some (List.map_congr_left fun m hm => lookup_of_nodup h hm)

theorem typeWord?_label (nested : Bool) (kind : PropertyKind) :
    typeWord? nested (.string kind.label) = some kind.label := by
  have hword : kind.label ∈ kindWords := by
    cases kind <;> simp [PropertyKind.label, kindWords]
  rw [typeWord?, if_pos hword]

end Json

namespace PropertyKind

/-- What is written of a kind besides its type tag. -/
def members : PropertyKind → List (String × Json)
  | object className => [("class", .string className)]
  | array innerName inner innerSlots => [("inner", .object [
      ("name", .string innerName), ("kind", inner.toJson), ("array_dim", .nat innerSlots.toNat)])]
  | struct structName => [("struct_name", .string structName)]
  | _ => []

theorem toJson_eq (kind : PropertyKind) : kind.toJson = tagged kind.label kind.members := by
  cases kind <;> rfl

theorem untag?_toJson (kind : PropertyKind) (nested : Bool) :
    untag? nested kind.toJson = some (kind.label, .object kind.members) := by
  have htag : kind.members.filter (·.1 == "type") = [] := by cases kind <;> rfl
  have hrest : kind.members.filter (·.1 != "type") = kind.members := by cases kind <;> rfl
  simp [toJson_eq, untag?, tagged, htag, hrest, typeWord?_label]

/-- A kind is written as a value that is read as it is written. -/
theorem readable_toJson (kind : PropertyKind) : Readable kind.toJson := by
  induction kind with
  | array innerName inner innerSlots ih =>
    refine readable_tagged (List.forall_mem_singleton.2 (.object ?_))
    simp only [List.forall_mem_cons]
    exact ⟨.string innerName, ih, .nat _, nofun⟩
  | object className => exact readable_tagged (List.forall_mem_singleton.2 (.string className))
  | struct structName => exact readable_tagged (List.forall_mem_singleton.2 (.string structName))
  | _ => exact readable_tagged nofun

/-- A kind is written as a value in which everything is a value. -/
theorem isSound_toJson (kind : PropertyKind) : kind.toJson.isSound = true := by
  induction kind with
  | array innerName inner innerSlots ih =>
    simp only [toJson, tagged, isSound, memberValuesAreSound, ih, isFinite_uint32, Json.nat,
      Bool.and_self]
  | _ => rfl

theorem depth_toJson_array (innerName : String) (inner : PropertyKind) (innerSlots : UInt32) :
    (array innerName inner innerSlots).toJson.depth = inner.toJson.depth + 2 := by
  simp [toJson, tagged, depth, depthMembers, Json.nat]

theorem depth_toJson_pos (kind : PropertyKind) : 0 < kind.toJson.depth := by
  cases kind <;> exact Nat.succ_pos _

/-- A kind is read as it is written, if it may be nested as deeply as it is. -/
theorem kindWithin?_toJson (kind : PropertyKind) {levels : Nat} (h : kind.toJson.depth ≤ levels)
    (nested : Bool) : kindWithin? levels nested kind.toJson = some kind := by
  induction kind generalizing levels nested with
  | array innerName inner innerSlots ih =>
    rw [depth_toJson_array] at h
    obtain ⟨levels, rfl⟩ := Nat.exists_eq_add_of_le' (show 1 ≤ levels by omega)
    rw [kindWithin?, untag?_toJson]
    have hinner := ih (show inner.toJson.depth ≤ levels by omega) true
    simp [label, members, record?, List.lookup_cons, text?, hinner, orDefault, natUpTo?_uint32]
  | _ =>
    obtain ⟨levels, rfl⟩ := Nat.exists_eq_add_of_le' (Nat.le_trans (depth_toJson_pos _) h)
    rw [kindWithin?, untag?_toJson]
    rfl

/-- The kind of a field is read as it is written, exactly if it is nested as deeply as a text may
be. -/
theorem kind?_toJson (kind : PropertyKind) :
    kind? kind.toJson = if kind.toJson.depth ≤ kindDepthLimit then some kind else none := by
  rw [kind?, isSound_toJson]
  split
  · next h => rw [if_pos h.1, kindWithin?_toJson _ (Nat.le_succ_of_le h.1)]
  · next h => rw [if_neg fun hdepth => h ⟨hdepth, rfl⟩]

end PropertyKind

/-! ## Declarations -/

namespace Json

/-- Items that are each read back from what they are written as are so together. -/
theorem mapM_map_eq_some {α β : Type} {f : β → Option α} {g : α → β} {as : List α}
    (h : ∀ a ∈ as, f (g a) = some a) : (as.map g).mapM f = some as := by
  induction as with
  | nil => rfl
  | cons a as ih =>
    rw [List.forall_mem_cons] at h
    exact mapM_cons_eq_some.2 ⟨a, as, h.1, ih h.2, rfl⟩

/-- A template is read back exactly if its kind is nested no deeper than the limit. -/
theorem template?_toJson (t : FieldTemplate) :
    template? t.toJson = if t.kind.toJson.depth ≤ kindDepthLimit then some t else none := by
  rw [FieldTemplate.toJson, template?, record?_object]
  · simp only [List.map_cons, List.map_nil, text?, orDefault, PropertyKind.kind?_toJson,
      natUpTo?_uint32, Option.bind_eq_bind, Option.bind_some, UInt32.ofNat_toNat]
    split <;> rfl
  · rfl
  · decide

theorem super?_toJson (super : Option String) :
    super? (super.elim .null .string) = some super := by
  cases super <;> rfl

end Json

namespace StructSchema

/-- Whether the kinds of all fields are nested only as deeply as a text may be. -/
def Shallow (declared : StructSchema) : Prop :=
  ∀ t ∈ declared.fields, t.kind.toJson.depth ≤ kindDepthLimit

instance (declared : StructSchema) : Decidable declared.Shallow :=
  inferInstanceAs (Decidable (∀ t ∈ declared.fields, _))

/-- The declaration of a struct in JSON. -/
def toJson (declared : StructSchema) : Json :=
  .object [("super", declared.super.elim .null .string),
    ("fields", .array (declared.fields.map FieldTemplate.toJson))]

/-- A struct is written as a value that is read as it is written. -/
theorem readable_toJson (declared : StructSchema) : Readable declared.toJson := by
  refine .object (List.forall_mem_cons.2 ⟨?_, List.forall_mem_singleton.2 (.array ?_)⟩)
  · cases declared.super with
    | none => exact .null
    | some super => exact .string super
  · intro j hj
    obtain ⟨t, -, rfl⟩ := List.mem_map.1 hj
    refine .object ?_
    simp only [List.forall_mem_cons]
    exact ⟨.string t.name, t.kind.readable_toJson, .nat _, nofun⟩

/-- A struct is read back if the templates of its fields are. -/
theorem structSchema?_toJson_eq (declared : StructSchema) : structSchema? declared.toJson =
    (((declared.fields.map FieldTemplate.toJson).mapM template?).map
      fun fields => ⟨declared.super, fields⟩) := by
  rw [toJson, structSchema?, record?_object]
  · simp only [List.map_cons, List.map_nil, orDefault, super?_toJson, elements?,
      Option.bind_eq_bind, Option.bind_some]
    cases (declared.fields.map FieldTemplate.toJson).mapM template? <;> rfl
  · rfl
  · decide

/-- A declaration is read as it is written. -/
theorem structSchema?_toJson {declared : StructSchema} (h : declared.Shallow) :
    structSchema? declared.toJson = some declared := by
  rw [structSchema?_toJson_eq, mapM_map_eq_some fun t ht => ?_]
  · rfl
  · rw [template?_toJson, if_pos (h t ht)]

/-- A struct with a field that is nested too deep is not read back. -/
theorem structSchema?_toJson_of_not_shallow {declared : StructSchema} (h : ¬ declared.Shallow) :
    structSchema? declared.toJson = none := by
  rw [structSchema?_toJson_eq, Option.map_eq_none_iff, Option.eq_none_iff_forall_ne_some]
  intro fields hfields
  refine h fun t ht => ?_
  have hread := exists_mapM_iff.1 ⟨fields, hfields⟩ t.toJson (List.mem_map_of_mem ht)
  rw [template?_toJson] at hread
  by_contra hdeep
  rw [if_neg hdeep] at hread
  obtain ⟨_, hread⟩ := hread
  cases hread

end StructSchema

/-! ## What is read is no deeper -/

namespace Json

theorem depth_lt_of_mem_array {elements : List Json} {j : Json} (h : j ∈ elements) :
    j.depth < (array elements).depth :=
  Nat.lt_succ_of_le (depthElements_le_iff.1 (Nat.le_refl _) j h)

theorem depth_lt_of_mem_object {members : List (String × Json)} {m : String × Json}
    (h : m ∈ members) : m.2.depth < (object members).depth :=
  Nat.lt_succ_of_le (depthMembers_le_iff.1 (Nat.le_refl _) m h)

/-- A member of a record is nested less deep than the record. -/
theorem depth_lt_of_record? {keys : List String} {j member : Json} {values : List (Option Json)}
    (h : record? keys j = some values) (hmember : some member ∈ values) :
    member.depth < j.depth := by
  cases j with
  | object members =>
    rw [record?, Option.ite_none_right_eq_some] at h
    obtain ⟨-, h⟩ := h
    cases h
    obtain ⟨key, -, hkey⟩ := List.mem_map.1 hmember
    obtain ⟨front, back, rfl, -⟩ := List.lookup_eq_some_iff.1 hkey
    exact depth_lt_of_mem_object (m := (key, member)) (by simp)
  | array elements =>
    rw [record?, Option.ite_none_right_eq_some] at h
    obtain ⟨-, h⟩ := h
    cases h
    rcases List.mem_append.1 hmember with hmember | hmember
    · obtain ⟨_, hmem, heq⟩ := List.mem_map.1 hmember
      cases heq
      exact depth_lt_of_mem_array hmem
    · cases List.eq_of_mem_replicate hmember
  | _ => cases h

/-- What is under a tag is nested no deeper than what bears it. -/
theorem depth_of_untag? {nested : Bool} {j rest : Json} {word : String}
    (h : untag? nested j = some (word, rest)) : 0 < j.depth ∧ rest.depth ≤ j.depth := by
  unfold untag? at h
  split at h
  · next members =>
    refine ⟨Nat.succ_pos _, ?_⟩
    split at h
    · obtain ⟨_, -, h⟩ := Option.bind_eq_some_iff.1 h
      cases h
      exact Nat.succ_le_succ (depthMembers_le_iff.2 fun m hm =>
        depthMembers_le_iff.1 (Nat.le_refl _) m (List.mem_of_mem_filter hm))
    · cases h
  · next tag elements =>
    refine ⟨Nat.succ_pos _, ?_⟩
    obtain ⟨_, -, h⟩ := Option.bind_eq_some_iff.1 h
    cases h
    exact Nat.succ_le_succ (Nat.le_max_right _ _)
  · cases h

/-- A name stands for one simple kind only. -/
theorem eq_of_simpleKind? {kind kind' : PropertyKind} {j : Json}
    (h : simpleKind? kind j = some kind') : kind = kind' := by
  unfold simpleKind? at h
  split at h
  · cases h
  · cases h
    rfl

/-- A kind that was read has none in it, or is of an array, whose elements have a kind that was read
two levels further in. -/
theorem kindWithin?_cases {levels : Nat} {nested : Bool} {j : Json} {kind : PropertyKind}
    (h : kindWithin? (levels + 1) nested j = some kind) :
    (kind.toJson.depth = 1 ∧ 0 < j.depth) ∨
      ∃ innerName inner slots member, kind = .array innerName inner slots ∧
        kindWithin? levels true member = some inner ∧ member.depth + 2 ≤ j.depth := by
  rw [kindWithin?] at h
  obtain ⟨⟨word, rest⟩, htag, h⟩ := Option.bind_eq_some_iff.1 h
  obtain ⟨hpos, hrest⟩ := depth_of_untag? htag
  have hsimple : ∀ {kind' : PropertyKind}, kind'.toJson.depth = 1 →
      simpleKind? kind' rest = some kind → kind.toJson.depth = 1 ∧ 0 < j.depth := by
    intro kind' hdepth hread
    rw [← eq_of_simpleKind? hread]
    exact ⟨hdepth, hpos⟩
  dsimp only at h
  split at h
  iterate 4 exact .inl (hsimple rfl h)
  · obtain ⟨values, -, h⟩ := Option.bind_eq_some_iff.1 h
    split at h
    · obtain ⟨className, -, rfl⟩ := Option.map_eq_some_iff.1 h
      exact .inl ⟨rfl, hpos⟩
    · cases h
  iterate 3 exact .inl (hsimple rfl h)
  -- an array, the only kind with another one in it
  · obtain ⟨values, hvalues, h⟩ := Option.bind_eq_some_iff.1 h
    split at h
    · obtain ⟨innerValues, hinnerValues, h⟩ := Option.bind_eq_some_iff.1 h
      split at h
      · obtain ⟨_, -, h⟩ := Option.bind_eq_some_iff.1 h
        obtain ⟨inner, hkind, h⟩ := Option.bind_eq_some_iff.1 h
        obtain ⟨_, -, h⟩ := Option.bind_eq_some_iff.1 h
        cases h
        have hmember := depth_lt_of_record? hinnerValues
          (List.mem_cons_of_mem _ List.mem_cons_self)
        have hinner := depth_lt_of_record? hvalues List.mem_cons_self
        exact .inr ⟨_, inner, _, _, rfl, hkind, by omega⟩
      · cases h
    · cases h
  · obtain ⟨values, -, h⟩ := Option.bind_eq_some_iff.1 h
    split at h
    · obtain ⟨structName, -, rfl⟩ := Option.map_eq_some_iff.1 h
      exact .inl ⟨rfl, hpos⟩
    · cases h
  iterate 4 exact .inl (hsimple rfl h)
  · cases h

/-- A kind is written no deeper than it was read. -/
theorem depth_toJson_le {levels : Nat} {nested : Bool} {j : Json} {kind : PropertyKind}
    (h : kindWithin? levels nested j = some kind) : kind.toJson.depth ≤ j.depth := by
  induction levels generalizing nested j kind with
  | zero => cases h
  | succ levels ih =>
    rcases kindWithin?_cases h with ⟨hdepth, hpos⟩ | ⟨_, inner, _, member, rfl, hinner, hdepth⟩
    · rw [hdepth]
      exact hpos
    · have hle := ih hinner
      rw [PropertyKind.depth_toJson_array]
      omega

theorem depth_le_of_kind? {j : Json} {kind : PropertyKind} (h : kind? j = some kind) :
    kind.toJson.depth ≤ kindDepthLimit := by
  rw [kind?, Option.ite_none_right_eq_some] at h
  exact Nat.le_trans (depth_toJson_le h.2) h.1.1

/-- A template that is read has a kind nested no deeper than the limit. -/
theorem depth_le_of_template? {j : Json} {t : FieldTemplate} (h : template? j = some t) :
    t.kind.toJson.depth ≤ kindDepthLimit := by
  obtain ⟨values, -, h⟩ := Option.bind_eq_some_iff.1 h
  split at h
  · obtain ⟨_, -, h⟩ := Option.bind_eq_some_iff.1 h
    obtain ⟨kind, hkind, h⟩ := Option.bind_eq_some_iff.1 h
    obtain ⟨_, -, h⟩ := Option.bind_eq_some_iff.1 h
    cases h
    exact depth_le_of_kind? hkind
  · cases h

/-- A declaration that was read can be read again. -/
theorem shallow_of_structSchema? {j : Json} {declared : StructSchema}
    (h : structSchema? j = some declared) : declared.Shallow := by
  obtain ⟨values, -, h⟩ := Option.bind_eq_some_iff.1 h
  split at h
  · obtain ⟨_, -, h⟩ := Option.bind_eq_some_iff.1 h
    obtain ⟨fields, hfields, h⟩ := Option.bind_eq_some_iff.1 h
    cases h
    intro t ht
    unfold orDefault elements? at hfields
    split at hfields
    · cases hfields
      cases ht
    · split at hfields
      · obtain ⟨_, -, hread⟩ := exists_mem_of_mapM hfields ht
        exact depth_le_of_template? hread
      · cases hfields
  · cases h

end Json

/-! ## Schemas -/

namespace Schema

variable {s : Schema} {ds order : List (String × StructSchema)} {d : String × StructSchema}
  {name : String} {declared : StructSchema}

/-- A name in lower case is in lower case. -/
theorem foldCase_foldCase (name : String) : foldCase (foldCase name) = foldCase name := by
  have hchar : ∀ c : Char, c.toLower.toLower = c.toLower := by
    intro c
    unfold Char.toLower
    grind
  rw [foldCase, foldCase, String.toList_ofList, List.map_map]
  exact congrArg String.ofList (List.map_congr_left fun c _ => hchar c)

/-- Whether names are in lower case and each is declared once. -/
structure Keyed (ds : List (String × StructSchema)) : Prop where
  folded : ∀ d ∈ ds, foldCase d.1 = d.1
  nodup : (ds.map Prod.fst).Nodup

theorem keyed_nil : Keyed [] :=
  ⟨nofun, .nil⟩

theorem Keyed.perm (h : Keyed ds) (hperm : order.Perm ds) : Keyed order :=
  ⟨fun d hd => h.folded d (hperm.mem_iff.1 hd), (hperm.map Prod.fst).nodup_iff.2 h.nodup⟩

theorem Keyed.init (h : Keyed (ds ++ [d])) : Keyed ds := by
  refine ⟨fun x hx => h.folded x (List.mem_append_left _ hx), ?_⟩
  have hnodup := h.nodup
  rw [List.map_append] at hnodup
  exact (List.nodup_append.1 hnodup).1

/-- A struct declared anew stands in place of the one of that name. -/
theorem Keyed.insert (h : Keyed s.structs) (name : String) (declared : StructSchema) :
    Keyed (s.insert name declared).structs := by
  refine ⟨List.forall_mem_append.2 ⟨fun d hd => h.folded d (List.mem_of_mem_filter hd),
    List.forall_mem_singleton.2 (foldCase_foldCase name)⟩, ?_⟩
  rw [Schema.insert, List.map_append, List.nodup_append]
  refine ⟨h.nodup.sublist (List.filter_sublist.map Prod.fst), by simp, ?_⟩
  intro key hkey key' hkey'
  obtain ⟨d, hd, rfl⟩ := List.mem_map.1 hkey
  rw [List.mem_singleton.1 hkey']
  simpa using (List.mem_filter.1 hd).2

/-- Declarations are kept under keys in lower case, one each. -/
theorem keyed_ofDeclarations (ds : List (String × StructSchema)) :
    Keyed (ofDeclarations ds).structs := by
  induction ds using List.reverseRecOn with
  | nil => exact keyed_nil
  | append_singleton ds d ih =>
    rw [ofDeclarations_concat]
    exact ih.insert d.1 d.2

/-- With one declaration under each key there are none that differ. -/
theorem Keyed.consistent (h : Keyed ds) : Consistent ds := by
  intro d hd d' hd' hsame
  have hname : d.1 = d'.1 := by rw [← h.folded d hd, ← h.folded d' hd', sameName_iff.1 hsame]
  have hlookup := lookup_of_nodup h.nodup hd
  rw [hname, lookup_of_nodup h.nodup hd'] at hlookup
  exact (Option.some.inj hlookup).symm

/-- Declarations under names in lower case, each of them once, are the schema that they make. -/
theorem Keyed.ofDeclarations (h : Keyed ds) : ofDeclarations ds = ⟨ds⟩ := by
  induction ds using List.reverseRecOn with
  | nil => rfl
  | append_singleton ds d ih =>
    have hother : ds.filter (·.1 != d.1) = ds := by
      have hnodup := h.nodup
      rw [List.map_append, List.nodup_append] at hnodup
      refine List.filter_eq_self.2 fun x hx => bne_iff_ne.2 ?_
      exact hnodup.2.2 x.1 (List.mem_map_of_mem hx) d.1 List.mem_cons_self
    rw [ofDeclarations_concat, ih h.init, Schema.insert,
      h.folded d (List.mem_append_right _ List.mem_cons_self), hother]

/-- The schemas that are made by reading and declaring. -/
inductive Reachable : Schema → Prop
  | empty : Reachable .empty
  | ofJson {source : String} {s : Schema} (h : ofJson source = .ok s) : Reachable s
  | insert {s : Schema} (h : Reachable s) (name : String) (declared : StructSchema) :
    Reachable (s.insert name declared)

/-- In whatever order the members of a text are taken, what they declare is reached. -/
theorem reachable_ofDeclarations (ds : List (String × StructSchema)) :
    (ofDeclarations ds).Reachable := by
  induction ds using List.reverseRecOn with
  | nil => exact .empty
  | append_singleton ds d ih =>
    rw [ofDeclarations_concat]
    exact ih.insert d.1 d.2

/-- A text that is a schema holds an object of declarations, and the schema is made of them. -/
theorem exists_ofDeclarations_of_ofJson {source : String} (h : Schema.ofJson source = .ok s) :
    ∃ members ds, parse? source = some (.object members) ∧
      members.mapM declaration? = some ds ∧ s = ofDeclarations ds := by
  obtain ⟨j, hparse, hread⟩ := ofJson_eq_ok.1 h
  cases j with
  | object members =>
    rw [schema?_object] at hread
    obtain ⟨ds, hds, rfl⟩ := Option.map_eq_some_iff.1 hread
    exact ⟨members, ds, hparse, hds, rfl⟩
  | _ => cases hread

/-- Every schema that can be made keeps its declarations under keys in lower case, one each. -/
theorem Reachable.keyed (h : s.Reachable) : Keyed s.structs := by
  induction h with
  | empty => exact keyed_nil
  | ofJson h =>
    obtain ⟨_, ds, -, -, rfl⟩ := exists_ofDeclarations_of_ofJson h
    exact keyed_ofDeclarations ds
  | insert _ name declared ih => exact ih.insert name declared

/-- Whether the kinds of all fields are nested only as deeply as a text may be. -/
def Shallow (s : Schema) : Prop :=
  ∀ d ∈ s.structs, d.2.Shallow

instance (s : Schema) : Decidable s.Shallow :=
  inferInstanceAs (Decidable (∀ d ∈ s.structs, d.2.Shallow))

theorem Shallow.insert (h : s.Shallow) (hdeclared : declared.Shallow) (name : String) :
    (s.insert name declared).Shallow :=
  List.forall_mem_append.2 ⟨fun d hd => h d (List.mem_of_mem_filter hd),
    List.forall_mem_singleton.2 hdeclared⟩

/-- A schema that was read can be read again. -/
theorem shallow_ofJson {source : String} (h : Schema.ofJson source = .ok s) : s.Shallow := by
  obtain ⟨members, ds, -, hds, rfl⟩ := exists_ofDeclarations_of_ofJson h
  have hread : ∀ d ∈ ds, d.2.Shallow := by
    intro d hd
    obtain ⟨m, -, hm⟩ := exists_mem_of_mapM hds hd
    exact shallow_of_structSchema? (declaration?_eq_some.1 hm).2
  clear h hds
  induction ds using List.reverseRecOn with
  | nil => exact nofun
  | append_singleton ds d ih =>
    rw [ofDeclarations_concat]
    exact (ih fun x hx => hread x (List.mem_append_left _ hx)).insert
      (hread d (List.mem_append_right _ List.mem_cons_self)) d.1

/-! ## There and back -/

theorem toJson_eq (s : Schema) : s.toJson = .object (s.structs.map fun d => (d.1, d.2.toJson)) :=
  rfl

theorem parse?_toJson (s : Schema) : parse? s.toJson.pretty = some s.toJson := by
  refine parse?_pretty (.object fun m hm => ?_)
  obtain ⟨d, -, rfl⟩ := List.mem_map.1 hm
  exact d.2.readable_toJson

theorem mapM_declaration?_toJson (h : s.Shallow) :
    (s.structs.map fun d => (d.1, d.2.toJson)).mapM declaration? = some s.structs :=
  mapM_map_eq_some fun d hd =>
    declaration?_eq_some.2 ⟨rfl, StructSchema.structSchema?_toJson (h d hd)⟩

/-- A schema with a kind that is nested too deeply is written to a text that is no schema. -/
theorem ofJson_toJson_of_not_shallow (h : ¬s.Shallow) :
    Schema.ofJson s.toJson.pretty = .error .malformedSchema := by
  rcases ofJson_of_parse? (parse?_toJson s) with ⟨-, hfails⟩ | ⟨ds, hds, -⟩
  · exact hfails
  · refine absurd (fun d hd => ?_) h
    obtain ⟨d', hread⟩ := exists_mapM_iff.1 ⟨ds, hds⟩ (d.1, d.2.toJson)
      (List.mem_map.2 ⟨d, hd, rfl⟩)
    by_contra hdeep
    rw [declaration?_eq_some, StructSchema.structSchema?_toJson_of_not_shallow hdeep] at hread
    cases hread.2

/-- A schema is read as it is written. However its structs are ordered, in the text and when they
are taken from it, the same structs stand under the same names in lower case, with the same supers
and the same fields; so all structs have the same fields, those of their supers included. -/
theorem ofJson_toJson (h : s.Reachable) (hshallow : s.Shallow) (hperm : order.Perm s.structs) :
    Schema.ofJson (toJson ⟨order⟩).pretty = .ok ⟨order⟩ ∧
      ∃ members, parse? (toJson ⟨order⟩).pretty = some (.object members) ∧
        members.mapM declaration? = some order ∧
        ∀ order', order'.Perm order → ofDeclarations order' = ⟨order'⟩ ∧
          ∀ name, find ⟨order'⟩ name = s.find name ∧ fields ⟨order'⟩ name = s.fields name := by
  have hread := mapM_declaration?_toJson (s := ⟨order⟩) fun d hd =>
    hshallow d (hperm.mem_iff.1 hd)
  have hkeyed := h.keyed.perm hperm
  refine ⟨ofJson_eq_ok.2 ⟨_, parse?_toJson _, ?_⟩, _, parse?_toJson _, hread, ?_⟩
  · rw [toJson_eq, schema?_object, hread, Option.map_some, hkeyed.ofDeclarations]
  intro order' hperm'
  have hmade : ofDeclarations order' = ⟨order'⟩ := (hkeyed.perm hperm').ofDeclarations
  have hmade' : ofDeclarations s.structs = s := h.keyed.ofDeclarations
  refine ⟨hmade, fun name => ?_⟩
  rw [← hmade, ← hmade']
  have hall := hperm'.trans hperm
  exact ⟨find_ofDeclarations_perm h.keyed.consistent hall name,
    fields_ofDeclarations_perm h.keyed.consistent hall name⟩

/-- A pawn that derives from an actor with arrays of arrays. -/
def nestedSchema : Schema :=
  (Schema.empty.insert "Engine.Actor" ⟨none, [
    ⟨"Owner", .object "Engine.Actor", 0⟩,
    ⟨"Grid", .array "Row" (.array "Cell" (.struct "Core.Object.Vector") 0) 4, 2⟩]⟩).insert
    "Engine.Pawn" ⟨some "ENGINE.ACTOR", [⟨"Health", .int, 1⟩]⟩

/-- A schema with an array in an array, its members written in another order. -/
theorem ofJson_toJson_nested :
    nestedSchema.Reachable ∧ nestedSchema.Shallow ∧
      nestedSchema.structs.reverse.Perm nestedSchema.structs ∧
      Schema.ofJson (toJson ⟨nestedSchema.structs.reverse⟩).pretty =
        .ok ⟨nestedSchema.structs.reverse⟩ ∧
      fields ⟨nestedSchema.structs.reverse⟩ "engine.pawn" = .ok [
        ⟨"Owner", .object "Engine.Actor", 0⟩,
        ⟨"Grid", .array "Row" (.array "Cell" (.struct "Core.Object.Vector") 0) 4, 2⟩,
        ⟨"Health", .int, 1⟩] := by
  have hreach : nestedSchema.Reachable := (Reachable.empty.insert _ _).insert _ _
  have hshallow : nestedSchema.Shallow := by decide
  have hperm := List.reverse_perm nestedSchema.structs
  obtain ⟨hread, -, -, -, hany⟩ := ofJson_toJson hreach hshallow hperm
  refine ⟨hreach, hshallow, hperm, hread, ?_⟩
  rw [((hany _ (.refl _)).2 "engine.pawn").2]
  rfl

end Schema

end UnrealPackage
