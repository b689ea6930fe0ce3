import UnrealPackage.Proofs.Library.Template
import UnrealPackage.Proofs.Library.Walk
/-!
# Flattened fields

The fields of a struct are found by three walks: up its supers, along the fields of each level, and
down the elements of an array property. `fields_flattened` says what comes out when the walks end,
and that the guards notice when one of the first two does not.

The limits never refuse what ends. The fields of one level lie in the package of their owner, so
they are no more than its exports, and the properties that an array leads down to are no more than
all exports together; in both cases because nothing is met twice.
-/

namespace UnrealPackage

namespace Library

/-! ## Links between fields -/

/-- The super of a struct. -/
def superOf (l : Library) (x : Located) : Except Error (Option Located) := do
  let r ← l.recordAt x
  l.resolve x r.super

/-- The field after a field. -/
def nextOf (l : Library) (x : Located) : Except Error (Option Located) := do
  let r ← l.recordAt x
  l.resolve x r.next

/-- Whether the export is a struct with this first field. -/
def FirstField (l : Library) (x : Located) (first : Option Located) : Prop :=
  ∃ r info, l.recordAt x = .ok r ∧ r.body.structInfo? = some info ∧
    l.resolve x info.child = .ok first

/-- Whether the export is a property. -/
def isProperty (l : Library) (x : Located) : Bool :=
  match l.recordAt x with
  | .ok r => r.body.fieldClass.isProperty
  | .error _ => false

/-- The fields of one level of supers, which lie in its package. -/
structure LevelFields (l : Library) (x : Located) (fields : List Located) : Prop where
  walk : ∃ first, l.FirstField x first ∧ Walk l.nextOf first fields
  own : ∀ y ∈ fields, y.package = x.package
  typed : ∀ y ∈ fields, l.isProperty y → l.Typed y

/-- A level of supers whose fields come back to one of them. -/
def FieldsLoop (l : Library) (x : Located) : Prop :=
  ∃ first, l.FirstField x (some first) ∧ Loops l.nextOf first ∧
    ∀ y, Relation.ReflTransGen (Leads l.nextOf) first y → l.isProperty y → l.Typed y

variable {l : Library} {x y : Located} {r : FieldRecord} {fullName : String}

/-! ## Links stay in the library -/

theorem Found.super (h : l.Found x) (hxy : Leads l.superOf x y) : l.Found y := by
  obtain ⟨r, -, hy⟩ := except_bind_eq_ok.1 hxy
  exact h.resolve hy

theorem Found.next (h : l.Found x) (hxy : Leads l.nextOf x y) : l.Found y := by
  obtain ⟨r, -, hy⟩ := except_bind_eq_ok.1 hxy
  exact h.resolve hy

theorem Found.first (h : l.Found x) (hxy : l.FirstField x (some y)) : l.Found y := by
  obtain ⟨r, info, -, -, hy⟩ := hxy
  exact h.resolve hy

/-! ## Supers -/

/-- There is room for supers that end, and they are listed from the root down. -/
theorem superChain_of_walk {room : Nat} {supers : List Located}
    (h : Walk l.superOf (some x) supers) (hroom : supers.length ≤ room) :
    ∃ chain, l.plain.superChain room x = .ok chain ∧ chain.map Prod.fst = supers.reverse ∧
      ∀ level ∈ chain, l.recordAt level.1 = .ok level.2 := by
  induction room generalizing x supers with
  | zero =>
    cases h with
    | step _ _ => exact absurd hroom (Nat.not_succ_le_zero _)
  | succ room ih =>
    cases h with
    | @step _ next rest hstep hrest =>
      obtain ⟨r, hr, hnext⟩ := except_bind_eq_ok.1 hstep
      cases next with
      | none =>
        cases hrest
        refine ⟨[(x, r)], ?_, rfl, ?_⟩
        · rw [Access.superChain]
          dsimp only [access_record, access_resolve]
          rw [hr, except_ok_bind, hnext]
          rfl
        · simpa using hr
      | some parent =>
        obtain ⟨chain, hchain, hfst, hrecords⟩ := ih hrest (Nat.le_of_succ_le_succ hroom)
        refine ⟨chain ++ [(x, r)], ?_, ?_, ?_⟩
        · rw [Access.superChain]
          dsimp only [access_record, access_resolve]
          rw [hr, except_ok_bind, hnext, except_ok_bind]
          dsimp only
          rw [hchain]
          rfl
        · rw [List.map_append, hfst, List.reverse_cons]
          rfl
        · intro level hlevel
          rcases List.mem_append.1 hlevel with hlevel | hlevel
          · exact hrecords level hlevel
          · cases List.mem_singleton.1 hlevel
            exact hr

/-- A failure further up is that of the whole walk. -/
theorem superChain_of_leads {room : Nat} {e : Error} (hstep : Leads l.superOf x y)
    (h : l.plain.superChain room y = .error e) :
    l.plain.superChain (room + 1) x = .error e := by
  obtain ⟨r, hr, hnext⟩ := except_bind_eq_ok.1 hstep
  rw [Access.superChain]
  dsimp only [access_record, access_resolve]
  rw [hr, except_ok_bind, hnext, except_ok_bind]
  dsimp only
  rw [h]
  rfl

/-- What is told at the level at which supers are given up. -/
def levelError (x : Located) : Error :=
  match x.fullName with
  | .ok name => .superChainLoops name
  | .error e => e

/-- Supers that come back to one of them are given up at some level. -/
theorem superChain_of_loops (room : Nat) (h : Loops l.superOf x) :
    ∃ y, Relation.ReflTransGen (Leads l.superOf) x y ∧
      l.plain.superChain room x = .error (levelError y) := by
  induction room generalizing x with
  | zero =>
    refine ⟨x, .refl, ?_⟩
    rw [Access.superChain, access_fullName, levelError]
    cases x.fullName <;> rfl
  | succ room ih =>
    obtain ⟨parent, hstep, hloops⟩ := h.exists_next
    obtain ⟨y, hy, hchain⟩ := ih hloops
    exact ⟨y, hy.head hstep, superChain_of_leads hstep hchain⟩

/-! ## The fields of one level -/

/-- A field adds its own template if it is a property, and nothing if it is none. -/
theorem exists_own (fullName : String) (hcount : l.source.Counted) (hx : l.Found x)
    (htyped : l.isProperty x → l.Typed x) {next : Option Located} (hstep : l.nextOf x = .ok next) :
    ∃ own, List.Forall₂ l.Describes ([x].filter l.isProperty) own ∧ ∀ room,
      l.plain.fieldList (l.source.exportCount + 1) fullName (room + 1) (some x) = (do
        let rest ← l.plain.fieldList (l.source.exportCount + 1) fullName room next
        pure (own ++ rest)) := by
  obtain ⟨r, hr, hnext⟩ := except_bind_eq_ok.1 hstep
  have hsame : r.body.fieldClass.isProperty = l.isProperty x := by
    rw [isProperty, hr]
  cases hproperty : l.isProperty x with
  | false =>
    refine ⟨[], ?_, fun room => ?_⟩
    · rw [List.filter_cons_of_neg (by rw [hproperty]; decide)]
      exact .nil
    · rw [Access.fieldList, access_record, hr, except_ok_bind]
      dsimp only
      rw [hsame, hproperty, if_neg Bool.false_ne_true]
      change (do
        let next ← l.resolve x r.next
        let rest ← l.plain.fieldList (l.source.exportCount + 1) fullName room next
        pure ([] ++ rest)) = _
      rw [hnext, except_ok_bind]
  | true =>
    obtain ⟨t, ht, hdescribes⟩ := (htyped hproperty).template_eq hcount hx hr
    refine ⟨[t], ?_, fun room => ?_⟩
    · rw [List.filter_cons_of_pos hproperty]
      exact .cons hdescribes .nil
    · rw [Access.fieldList, access_record, hr, except_ok_bind]
      dsimp only
      rw [hsame, hproperty, if_pos rfl, ht]
      change (do
        let next ← l.resolve x r.next
        let rest ← l.plain.fieldList (l.source.exportCount + 1) fullName room next
        pure ([t] ++ rest)) = _
      rw [hnext, except_ok_bind]

/-- Fields that end are listed if there is room for them. -/
theorem fieldList_of_walk (hcount : l.source.Counted) {room : Nat} {first : Option Located}
    {fields : List Located} (h : Walk l.nextOf first fields) (hroom : fields.length ≤ room)
    (hfound : ∀ y ∈ fields, l.Found y) (htyped : ∀ y ∈ fields, l.isProperty y → l.Typed y) :
    ∃ ts, l.plain.fieldList (l.source.exportCount + 1) fullName room first = .ok ts ∧
      List.Forall₂ l.Describes (fields.filter l.isProperty) ts := by
  induction h generalizing room with
  | done => exact ⟨[], by cases room <;> rfl, .nil⟩
  | @step x next rest hstep _ ih =>
    obtain ⟨room, rfl⟩ := Nat.exists_eq_succ_of_ne_zero (n := room) (by
      rw [List.length_cons] at hroom
      omega)
    obtain ⟨hx, hfound⟩ := List.forall_mem_cons.1 hfound
    obtain ⟨hxTyped, htyped⟩ := List.forall_mem_cons.1 htyped
    obtain ⟨own, hdescribed, hown⟩ := exists_own fullName hcount hx hxTyped hstep
    obtain ⟨ts, hts, hrest⟩ := ih (Nat.le_of_succ_le_succ hroom) hfound htyped
    refine ⟨own ++ ts, ?_, ?_⟩
    · rw [hown, hts]
      rfl
    · have hsplit : (x :: rest).filter l.isProperty =
          [x].filter l.isProperty ++ rest.filter l.isProperty :=
        List.filter_append [x] rest
      rw [hsplit]
      exact List.rel_append hdescribed hrest

/-- Fields that come back to one of them are given up. -/
theorem fieldList_of_loops (hcount : l.source.Counted) (room : Nat) (hx : l.Found x)
    (h : Loops l.nextOf x) (htyped : ∀ y, Relation.ReflTransGen (Leads l.nextOf) x y →
      l.isProperty y → l.Typed y) :
    l.plain.fieldList (l.source.exportCount + 1) fullName room (some x) =
      .error (.fieldListLoops fullName) := by
  induction room generalizing x with
  | zero => rfl
  | succ room ih =>
    obtain ⟨y, hstep, hloops⟩ := h.exists_next
    obtain ⟨own, -, hown⟩ := exists_own fullName hcount hx (htyped x .refl) hstep
    have hrest := ih (hx.next hstep) hloops fun z hz => htyped z (hz.head hstep)
    rw [hown, hrest]
    rfl

/-- The own fields of a struct whose list comes to an end are those of its level that are
properties, each with its template. -/
theorem LevelFields.ownFields_eq (fullName : String) (hcount : l.source.Counted)
    {fields : List Located} (hx : l.Found x) (h : l.LevelFields x fields)
    (hr : l.recordAt x = .ok r) :
    ∃ ts, l.plain.ownFields (l.source.exportCount + 1) fullName x r = .ok ts ∧
      List.Forall₂ l.Describes (fields.filter l.isProperty) ts := by
  obtain ⟨first, ⟨r', info, hr', hinfo, hfirst⟩, hwalk⟩ := h.walk
  cases hr.symm.trans hr'
  have hfound : ∀ y ∈ fields, l.Found y :=
    hwalk.forall_mem (fun y hy => hx.resolve (hfirst.trans (congrArg _ hy))) fun _ _ => Found.next
  have hroom : fields.length ≤ x.package.tables.exports.length := by
    refine length_le_exports hwalk.nodup fun y hy => ⟨h.own y hy, ?_⟩
    obtain ⟨next, -, hstep, -, -⟩ := hwalk.exists_shorter hy
    obtain ⟨s, hs, -⟩ := except_bind_eq_ok.1 hstep
    rw [← h.own y hy]
    exact index_lt_of_recordAt hs
  rw [Access.ownFields]
  dsimp only [access_record, access_resolve]
  rw [hinfo]
  dsimp only
  rw [hfirst, except_ok_bind]
  exact fieldList_of_walk hcount hwalk hroom hfound h.typed

/-- The own fields of a struct whose list comes back to one of them are refused with the name that
was asked for. -/
theorem FieldsLoop.ownFields_eq (hcount : l.source.Counted) (hx : l.Found x) (h : l.FieldsLoop x)
    (hr : l.recordAt x = .ok r) :
    l.plain.ownFields (l.source.exportCount + 1) fullName x r =
      .error (.fieldListLoops fullName) := by
  obtain ⟨first, hfirst, hloops, htyped⟩ := h
  have hfound := hx.first hfirst
  obtain ⟨r', info, hr', hinfo, hchild⟩ := hfirst
  cases hr.symm.trans hr'
  rw [Access.ownFields]
  dsimp only [access_record, access_resolve]
  rw [hinfo]
  dsimp only
  rw [hchild, except_ok_bind]
  exact fieldList_of_loops hcount _ hfound hloops htyped

/-! ## All levels -/

section

variable {chain : List (Located × FieldRecord)}

/-- The levels one after the other. -/
theorem exists_levels (fullName : String) (hcount : l.source.Counted)
    {levels : List (List Located)}
    (hfound : ∀ level ∈ chain, l.Found level.1)
    (hrecords : ∀ level ∈ chain, l.recordAt level.1 = .ok level.2)
    (h : List.Forall₂ l.LevelFields (chain.map Prod.fst) levels) :
    ∃ tss,
      (chain.mapM fun (x, r) => l.plain.ownFields (l.source.exportCount + 1) fullName x r) =
        .ok tss ∧
      List.Forall₂ l.Describes (levels.flatten.filter l.isProperty) tss.flatten := by
  induction chain generalizing levels with
  | nil =>
    cases h
    exact ⟨[], rfl, .nil⟩
  | cons level chain ih =>
    obtain ⟨x, r⟩ := level
    cases h with
    | @cons _ fields _ levels hlevel hrest =>
      obtain ⟨hx, hfound⟩ := List.forall_mem_cons.1 hfound
      obtain ⟨hr, hrecords⟩ := List.forall_mem_cons.1 hrecords
      obtain ⟨ts, hts, hdescribed⟩ := hlevel.ownFields_eq fullName hcount hx hr
      obtain ⟨tss, htss, hothers⟩ := ih hfound hrecords hrest
      refine ⟨ts :: tss, ?_, ?_⟩
      · rw [List.mapM_cons, htss]
        dsimp only
        rw [hts]
        rfl
      · rw [List.flatten_cons, List.filter_append, List.flatten_cons]
        exact List.rel_append hdescribed hothers

/-- The first level whose fields come back to one of them ends the list. -/
theorem levels_of_loop (hcount : l.source.Counted) (hfound : ∀ level ∈ chain, l.Found level.1)
    (hrecords : ∀ level ∈ chain, l.recordAt level.1 = .ok level.2)
    (h : ∀ level ∈ chain, (∃ fields, l.LevelFields level.1 fields) ∨ l.FieldsLoop level.1)
    (hloop : ∃ level ∈ chain, l.FieldsLoop level.1) :
    (chain.mapM fun (x, r) => l.plain.ownFields (l.source.exportCount + 1) fullName x r) =
      .error (.fieldListLoops fullName) := by
  induction chain with
  | nil =>
    obtain ⟨_, hmem, -⟩ := hloop
    cases hmem
  | cons level chain ih =>
    obtain ⟨x, r⟩ := level
    obtain ⟨hx, hfound⟩ := List.forall_mem_cons.1 hfound
    obtain ⟨hr, hrecords⟩ := List.forall_mem_cons.1 hrecords
    obtain ⟨hlevel, h⟩ := List.forall_mem_cons.1 h
    rw [List.mapM_cons]
    dsimp only
    by_cases hown : l.FieldsLoop x
    · rw [hown.ownFields_eq hcount hx hr]
      rfl
    · obtain ⟨fields, hfields⟩ := hlevel.resolve_right hown
      obtain ⟨ts, hts, -⟩ := hfields.ownFields_eq fullName hcount hx hr
      obtain ⟨level, hmem, hlater⟩ := hloop
      rcases List.mem_cons.1 hmem with rfl | hmem
      · exact absurd hlater hown
      · rw [hts, ih hfound hrecords h ⟨level, hmem, hlater⟩]
        rfl

end

/-- The fields of a struct are its levels, if there are not too many of them. -/
theorem fields_eq {supers : List Located} (hx : l.locate fullName = .ok x)
    (h : Walk l.superOf (some x) supers) (hlimit : supers.length ≤ superLimit) :
    ∃ chain : List (Located × FieldRecord),
      chain.map Prod.fst = supers.reverse ∧ (∀ level ∈ chain, l.Found level.1) ∧
      (∀ level ∈ chain, l.recordAt level.1 = .ok level.2) ∧
      l.fields fullName =
        List.flatten <$> chain.mapM fun (x, r) =>
          l.plain.ownFields (l.source.exportCount + 1) fullName x r := by
  obtain ⟨chain, hchain, hfst, hrecords⟩ := superChain_of_walk h (Nat.le_succ_of_le hlimit)
  have hfound : ∀ y ∈ supers, l.Found y :=
    h.forall_mem (fun y hy => Option.some.inj hy ▸ found_of_locate hx) fun _ _ => Found.super
  refine ⟨chain, hfst, fun level hlevel => hfound _ ?_, hrecords, ?_⟩
  · rw [← List.mem_reverse, ← hfst]
    exact List.mem_map_of_mem hlevel
  · change l.flatten l.recordAt fullName = _
    rw [flatten, Access.flatten, access_locate, hx, except_ok_bind, hchain]
    rfl

theorem fields_of_superChain {e : Error} (hx : l.locate fullName = .ok x)
    (h : l.plain.superChain (superLimit + 1) x = .error e) : l.fields fullName = .error e := by
  change l.flatten l.recordAt fullName = _
  rw [flatten, Access.flatten, access_locate, hx, except_ok_bind, h]
  rfl

/-- What the fields of a struct are. If its supers end within the limit, and the fields of each of
them end, lie in its package and have types that refer to what is there, then the fields are one
template for each property, and nothing for other fields, from the root of the supers down and at
each level in the order of its chain.

If the supers come back to one of them, the name of one of them is told, which may fail itself. If
the fields of a level come back to one of them, this is told. -/
theorem fields_flattened (l : Library) (hcount : l.source.Counted) {fullName : String} {x : Located}
    (hx : l.locate fullName = .ok x) :
    (∀ {supers : List Located} {levels : List (List Located)},
      Walk l.superOf (some x) supers → supers.length ≤ superLimit →
      List.Forall₂ l.LevelFields supers.reverse levels →
      ∃ ts, l.fields fullName = .ok ts ∧
        List.Forall₂ l.Describes (levels.flatten.filter l.isProperty) ts) ∧
    (Loops l.superOf x → ∃ y, Relation.ReflTransGen (Leads l.superOf) x y ∧
      (∀ name, y.fullName = .ok name → ∃ e, l.fields fullName = .error e ∧
        e.formatMessage? = some s!"super chain of {name} loops") ∧
      ∀ e, y.fullName = .error e → l.fields fullName = .error e) ∧
    ∀ {supers : List Located},
      Walk l.superOf (some x) supers → supers.length ≤ superLimit →
      (∀ y ∈ supers, (∃ fields, l.LevelFields y fields) ∨ l.FieldsLoop y) →
      (∃ y ∈ supers, l.FieldsLoop y) →
      ∃ e, l.fields fullName = .error e ∧
        e.formatMessage? = some s!"field list of {fullName} loops" := by
  refine ⟨?_, ?_, ?_⟩
  · intro supers levels hwalk hlimit hlevels
    obtain ⟨chain, hfst, hfound, hrecords, hfields⟩ := fields_eq hx hwalk hlimit
    rw [← hfst] at hlevels
    obtain ⟨tss, htss, hdescribed⟩ :=
      exists_levels fullName hcount hfound hrecords hlevels
    refine ⟨tss.flatten, ?_, hdescribed⟩
    rw [hfields, htss]
    rfl
  · intro hloops
    obtain ⟨y, hy, hchain⟩ := superChain_of_loops (superLimit + 1) hloops
    have hfields := fields_of_superChain hx hchain
    refine ⟨y, hy, fun name hname => ⟨.superChainLoops name, ?_, rfl⟩, fun e he => ?_⟩
    · rw [hfields, levelError, hname]
    · rw [hfields, levelError, he]
  · rintro supers hwalk hlimit hlevels ⟨y, hy, hloops⟩
    obtain ⟨chain, hfst, hfound, hrecords, hfields⟩ := fields_eq hx hwalk hlimit
    have hmem : ∀ level ∈ chain, level.1 ∈ supers := by
      intro level hlevel
      rw [← List.mem_reverse, ← hfst]
      exact List.mem_map_of_mem hlevel
    rw [← List.mem_reverse, ← hfst] at hy
    obtain ⟨level, hlevel, rfl⟩ := List.mem_map.1 hy
    refine ⟨.fieldListLoops fullName, ?_, rfl⟩
    rw [hfields, levels_of_loop hcount hfound hrecords
      (fun level hlevel => hlevels _ (hmem level hlevel)) ⟨level, hlevel, hloops⟩]
    rfl

/-- The payload of a class with nothing but a super and a first field, which take one byte each. -/
def classPayload (super child : UInt8) : List UInt8 :=
  [super, 0, 0, child] ++ List.replicate 61 0

/-- The payload of a property of the type that the last bytes tell. -/
def propertyPayload (next : UInt8) (type : List UInt8) : List UInt8 :=
  [0, 0, next, 1, 0, 4, 0, 0, 0, 0, 0, 0] ++ type

/-- A package in which the class `Thing` has a number of items and a constant and derives from a
class of the other package, the class `Ring` derives from itself, and the only field of `Row` is
followed by itself. -/
def thingPackage : Package where
  image := classPayload 0x85 2 ++ propertyPayload 4 [3] ++ propertyPayload 0 [0x85] ++
    [0, 0, 0, 0] ++ classPayload 5 0 ++ classPayload 0 7 ++ [0, 0, 7, 0]
  header := ⟨0, 0, 0, ⟨0, 0⟩, ⟨0, 0⟩, ⟨0, 0⟩, ⟨0, 0, 0, 0⟩, []⟩
  tables := ⟨"P",
    [⟨"None", 0⟩, ⟨"Thing", 0⟩, ⟨"Items", 0⟩, ⟨"Item", 0⟩, ⟨"Limit", 0⟩, ⟨"Core", 0⟩, ⟨"Class", 0⟩,
      ⟨"ArrayProperty", 0⟩, ⟨"ObjectProperty", 0⟩, ⟨"Const", 0⟩, ⟨"Q", 0⟩, ⟨"Base", 0⟩,
      ⟨"Package", 0⟩, ⟨"Ring", 0⟩, ⟨"Row", 0⟩, ⟨"Bead", 0⟩],
    [⟨5, 6, ⟨0⟩, 7⟩, ⟨5, 6, ⟨0⟩, 8⟩, ⟨5, 6, ⟨0⟩, 9⟩, ⟨5, 12, ⟨0⟩, 10⟩, ⟨5, 6, ⟨-4⟩, 11⟩],
    [⟨⟨0⟩, ⟨-5⟩, ⟨0⟩, 1, 0, 65, 0⟩, ⟨⟨-1⟩, ⟨0⟩, ⟨1⟩, 2, 0, 13, 65⟩,
      ⟨⟨-2⟩, ⟨0⟩, ⟨2⟩, 3, 0, 13, 78⟩, ⟨⟨-3⟩, ⟨0⟩, ⟨1⟩, 4, 0, 4, 91⟩,
      ⟨⟨0⟩, ⟨5⟩, ⟨0⟩, 13, 0, 65, 95⟩, ⟨⟨0⟩, ⟨0⟩, ⟨0⟩, 14, 0, 65, 160⟩,
      ⟨⟨-3⟩, ⟨0⟩, ⟨6⟩, 15, 0, 4, 225⟩]⟩
  options := {}

/-- A package with the class `Base`, which has a number. -/
def basePackage : Package where
  image := classPayload 0 2 ++ propertyPayload 0 []
  header := ⟨0, 0, 0, ⟨0, 0⟩, ⟨0, 0⟩, ⟨0, 0⟩, ⟨0, 0, 0, 0⟩, []⟩
  tables := ⟨"Q",
    [⟨"None", 0⟩, ⟨"Base", 0⟩, ⟨"Health", 0⟩, ⟨"Core", 0⟩, ⟨"Class", 0⟩, ⟨"IntProperty", 0⟩],
    [⟨3, 4, ⟨0⟩, 5⟩],
    [⟨⟨0⟩, ⟨0⟩, ⟨0⟩, 1, 0, 65, 0⟩, ⟨⟨-1⟩, ⟨0⟩, ⟨1⟩, 2, 0, 12, 65⟩]⟩
  options := {}

/-- A library with these two packages. -/
def thingLibrary : Library where
  source := ⟨fun name => .ok (if sameName name "P" then some thingPackage
    else if sameName name "Q" then some basePackage else none), 9⟩
  nativePackages := []

/-- The packages that can be found have no more exports than the source tells. -/
theorem counted_thingLibrary : thingLibrary.source.Counted := by
  refine ⟨[thingPackage, basePackage], fun name p h => ?_, Nat.le_refl _⟩
  have hfound : (if sameName name "P" then some thingPackage
      else if sameName name "Q" then some basePackage else none) = some p := Except.ok.inj h
  split at hfound
  · cases hfound
    exact List.mem_cons_self
  · split at hfound
    · cases hfound
      exact List.mem_cons_of_mem _ List.mem_cons_self
    · cases hfound

example : thingLibrary.fields "P.Thing" =
    .ok [⟨"Health", .int, 1⟩, ⟨"Items", .array "Item" (.object "Q.Base") 1, 1⟩] := by
  rfl

/-- Fields of a class and its super, a ring of supers, and a ring of fields, with what the library
answers for each. -/
theorem fields_flattened_thing :
    (∃ ts, thingLibrary.fields "P.Thing" = .ok ts ∧ List.Forall₂ thingLibrary.Describes
      ([⟨basePackage, 1⟩, ⟨thingPackage, 1⟩, ⟨thingPackage, 3⟩].filter thingLibrary.isProperty)
      ts) ∧
    (∃ y, Relation.ReflTransGen (Leads thingLibrary.superOf) ⟨thingPackage, 4⟩ y ∧
      ∀ name, y.fullName = .ok name → ∃ e, thingLibrary.fields "P.Ring" = .error e ∧
        e.formatMessage? = some s!"super chain of {name} loops") ∧
    ∃ e, thingLibrary.fields "P.Row" = .error e ∧
      e.formatMessage? = some "field list of P.Row loops" := by
  refine ⟨?_, ?_, ?_⟩
  · obtain ⟨hthing, -, -⟩ :=
      @fields_flattened thingLibrary counted_thingLibrary "P.Thing" ⟨thingPackage, 0⟩ rfl
    have hnumber : thingLibrary.Typed ⟨basePackage, 1⟩ := typed_of_refers rfl rfl nofun trivial
    have hitem : thingLibrary.Typed ⟨thingPackage, 2⟩ :=
      typed_of_refers rfl rfl nofun ⟨"Q.Base", Tables.objectFullName_eq_ok.1 rfl⟩
    have hitems : thingLibrary.Typed ⟨thingPackage, 1⟩ :=
      typed_of_element ⟨_, _, _, rfl, rfl, rfl, rfl⟩ hitem
    have hlimit : thingLibrary.isProperty ⟨thingPackage, 3⟩ = false := rfl
    have hbase : thingLibrary.LevelFields ⟨basePackage, 0⟩ [⟨basePackage, 1⟩] := by
      refine ⟨⟨some ⟨basePackage, 1⟩, ⟨_, _, rfl, rfl, rfl⟩, .step rfl .done⟩, by simp, ?_⟩
      simpa using fun _ => hnumber
    have hown : thingLibrary.LevelFields ⟨thingPackage, 0⟩
        [⟨thingPackage, 1⟩, ⟨thingPackage, 3⟩] := by
      refine ⟨⟨some ⟨thingPackage, 1⟩, ⟨_, _, rfl, rfl, rfl⟩, .step rfl (.step rfl .done)⟩,
        by simp, ?_⟩
      simpa [hlimit] using fun _ => hitems
    exact @hthing [⟨thingPackage, 0⟩, ⟨basePackage, 0⟩]
      [[⟨basePackage, 1⟩], [⟨thingPackage, 1⟩, ⟨thingPackage, 3⟩]]
      (.step rfl (.step rfl .done)) (by decide) (.cons hbase (.cons hown .nil))
  · obtain ⟨-, hring, -⟩ :=
      @fields_flattened thingLibrary counted_thingLibrary "P.Ring" ⟨thingPackage, 4⟩ rfl
    obtain ⟨y, hy, hname, -⟩ := hring ⟨_, .refl, .single rfl⟩
    exact ⟨y, hy, hname⟩
  · obtain ⟨-, -, hrow⟩ :=
      @fields_flattened thingLibrary counted_thingLibrary "P.Row" ⟨thingPackage, 5⟩ rfl
    have hbead : ∀ y, Relation.ReflTransGen (Leads thingLibrary.nextOf) ⟨thingPackage, 6⟩ y →
        y = ⟨thingPackage, 6⟩ := by
      intro y hy
      induction hy with
      | refl => rfl
      | tail _ hstep ih =>
        subst ih
        exact (Option.some.inj (Except.ok.inj hstep)).symm
    have hloops : thingLibrary.FieldsLoop ⟨thingPackage, 5⟩ := by
      refine ⟨⟨thingPackage, 6⟩, ⟨_, _, rfl, rfl, rfl⟩, ⟨_, .refl, .single rfl⟩, fun y hy h => ?_⟩
      cases hbead y hy
      cases h
    exact @hrow [⟨thingPackage, 5⟩] (.step rfl .done) (by decide)
      (by simpa using .inr hloops) ⟨_, List.mem_singleton_self _, hloops⟩

/-- A package in which the class `Thing` derives from `Ring` and `Ring` from itself, and the owner
of `Ring` is an export that is not there. -/
def ringPackage : Package where
  image := classPayload 2 0 ++ classPayload 2 0
  header := ⟨0, 0, 0, ⟨0, 0⟩, ⟨0, 0⟩, ⟨0, 0⟩, ⟨0, 0, 0, 0⟩, []⟩
  tables := ⟨"P", [⟨"None", 0⟩, ⟨"Thing", 0⟩, ⟨"Ring", 0⟩], [],
    [⟨⟨0⟩, ⟨2⟩, ⟨0⟩, 1, 0, 65, 0⟩, ⟨⟨0⟩, ⟨2⟩, ⟨9⟩, 2, 0, 65, 65⟩]⟩
  options := {}

/-- A library with this package alone. -/
def ringLibrary : Library where
  source := ⟨fun _ => .ok (some ringPackage), 2⟩
  nativePackages := []

/-- Where the supers that come back have no full names, it is not told that they do. -/
theorem fields_nameless_ring : ringLibrary.locate "P.Thing" = .ok ⟨ringPackage, 0⟩ ∧
    Loops ringLibrary.superOf ⟨ringPackage, 0⟩ ∧
    ringLibrary.fields "P.Thing" = .error (.outOfRange .exports 8 2) ∧
    (Error.outOfRange .exports 8 2).formatMessage? = none := by
  have hring : Leads ringLibrary.superOf ⟨ringPackage, 1⟩ ⟨ringPackage, 1⟩ := rfl
  have hstep : Leads ringLibrary.superOf ⟨ringPackage, 0⟩ ⟨ringPackage, 1⟩ := rfl
  have hlast : ∀ y, Relation.ReflTransGen (Leads ringLibrary.superOf) ⟨ringPackage, 1⟩ y →
      y = ⟨ringPackage, 1⟩ := by
    intro y hy
    induction hy with
    | refl => rfl
    | tail _ hnext ih =>
      subst ih
      exact (Option.some.inj (Except.ok.inj (hring.symm.trans hnext))).symm
  obtain ⟨y, hy, hchain⟩ := superChain_of_loops superLimit ⟨_, .refl, .single hring⟩
  cases hlast y hy
  exact ⟨rfl, ⟨_, .single hstep, .single hring⟩,
    fields_of_superChain rfl (superChain_of_leads hstep hchain), rfl⟩

end Library

end UnrealPackage
