import UnrealPackage.Proofs.Library.Walk
import UnrealPackage.Proofs.Tables.Names
import UnrealPackage.Schema.Basic
/-!
# Flattened schemas

The fields of a struct in a schema are found along its supers, as `fields_outcome` says: if these
end, they are those of the super and then the struct's own; if not, either a name on the way is not
declared, or the supers come back to a struct.

The walk gives up after one struct more than are declared. It is right to do so since the supers of
the structs that are declared are no more than these: a way through more of them comes back to one
(`loops_of_isChain`). That the three outcomes exclude one another is a fact about steps, so it is
enough to show where each of them comes from (`reports_fields`).
-/

namespace UnrealPackage

namespace Schema

variable {s : Schema} {name name' super start start' : String} {declared : StructSchema} {e : Error}
  {room room' : Nat} {current : Option String} {chain : List StructSchema} {ts : List FieldTemplate}

/-! ## Declarations -/

/-- The struct that a schema declares under a name, written in any case. -/
def Declares (s : Schema) (name : String) (declared : StructSchema) : Prop :=
  s.structs.lookup (foldCase name) = some declared

/-- Whether the schema declares the struct `name` with the super `super`. -/
def HasSuper (s : Schema) (name super : String) : Prop :=
  ∃ declared, s.Declares name declared ∧ declared.super = some super

/-- Whether the supers of `name` come to a struct twice, under names that may differ in case. -/
def Cyclic (s : Schema) (name : String) : Prop :=
  ∃ first again, Relation.ReflTransGen s.HasSuper name first ∧
    Relation.TransGen s.HasSuper first again ∧ sameName first again = true

/-- Whether fields are those of the super of `name`, if it has one, and then its own. -/
def Flattened (s : Schema) (name : String) (ts : List FieldTemplate) : Prop :=
  ∃ declared, s.Declares name declared ∧
    (declared.super = none ∧ ts = declared.fields ∨
      ∃ super base, declared.super = some super ∧ s.fields super = .ok base ∧
        ts = base ++ declared.fields)

theorem Declares.congr (h : s.Declares name declared) (hsame : sameName name name' = true) :
    s.Declares name' declared := by
  rw [Declares, ← sameName_iff.1 hsame]
  exact h

theorem HasSuper.congr (h : s.HasSuper name super) (hsame : sameName name name' = true) :
    s.HasSuper name' super := by
  obtain ⟨declared, hdeclared, hsuper⟩ := h
  exact ⟨declared, hdeclared.congr hsame, hsuper⟩

/-- The fields of a struct do not depend on the case of its name. -/
theorem flattened_congr (hsame : sameName name name' = true) :
    s.Flattened name ts ↔ s.Flattened name' ts := by
  have hdeclares : s.Declares name = s.Declares name' := by
    funext declared
    rw [Declares, Declares, sameName_iff.1 hsame]
  rw [Flattened, Flattened, hdeclares]

/-- What is left of a list without a key is looked up as before under every other key. -/
theorem lookup_filter_ne {α : Type} (entries : List (String × α)) (key key' : String) :
    (entries.filter (·.1 != key)).lookup key' =
      if key = key' then none else entries.lookup key' := by
  induction entries with
  | nil => exact (ite_self _).symm
  | cons entry entries ih =>
    by_cases hkey : entry.1 = key
    · rw [List.filter_cons_of_neg (by simpa using hkey), ih, List.lookup_cons, hkey]
      split
      · rfl
      · next hne => rw [beq_false_of_ne (Ne.symm hne)]
    · rw [List.filter_cons_of_pos (by simpa using hkey), List.lookup_cons, List.lookup_cons, ih]
      by_cases hkey' : key = key'
      · rw [if_pos hkey', if_pos hkey', beq_false_of_ne (hkey' ▸ Ne.symm hkey)]
      · rw [if_neg hkey', if_neg hkey']

/-- What is declared counts for all spellings of its name, and changes nothing for other names. -/
theorem declares_insert_iff {inserted : StructSchema} :
    (s.insert name inserted).Declares name' declared ↔
      if sameName name name' = true then inserted = declared else s.Declares name' declared := by
  rw [Declares, insert, List.lookup_append, lookup_filter_ne, List.lookup_cons, List.lookup_nil]
  by_cases hsame : sameName name name' = true
  · rw [if_pos hsame, if_pos (sameName_iff.1 hsame), sameName_iff.1 hsame, beq_self_eq_true]
    exact Option.some_inj
  · have hne : foldCase name ≠ foldCase name' := fun h => hsame (sameName_iff.2 h)
    rw [if_neg hsame, if_neg hne, beq_false_of_ne hne.symm, Option.or_none]
    exact Iff.rfl

/-- A declaration is found exactly where there is one. -/
theorem find_eq_ok : s.find name = .ok declared ↔ s.Declares name declared := by
  rw [find, Declares]
  split
  · next found hfound =>
    rw [hfound, Option.some_inj]
    exact ⟨Except.ok.inj, congrArg _⟩
  · next hnone =>
    rw [hnone]
    exact ⟨nofun, nofun⟩

/-- A declaration is not found exactly where there is none, and the error names it. -/
theorem find_eq_error : s.find name = .error e ↔
    (∀ declared, ¬s.Declares name declared) ∧ e = .objectNotFound name := by
  cases hfound : s.structs.lookup (foldCase name) with
  | none =>
    rw [find, hfound]
    refine ⟨fun h => ⟨fun declared hdeclared => ?_, (Except.error.inj h).symm⟩, ?_⟩
    · cases hfound.symm.trans hdeclared
    · rintro ⟨-, rfl⟩
      rfl
  | some declared =>
    rw [find, hfound]
    exact ⟨nofun, fun h => absurd hfound (h.1 declared)⟩

/-! ## Steps to supers -/

/-- The name of the super of a struct. -/
def superOf (s : Schema) (name : String) : Except Error (Option String) :=
  StructSchema.super <$> s.find name

/-- The super of a struct is the one that it was declared with. -/
theorem superOf_eq_ok {super? : Option String} : s.superOf name = .ok super? ↔
    ∃ declared, s.Declares name declared ∧ declared.super = super? := by
  simp only [superOf, ← find_eq_ok]
  cases s.find name with
  | error e => exact ⟨nofun, nofun⟩
  | ok declared =>
    constructor
    · exact fun h => ⟨declared, rfl, Except.ok.inj h⟩
    · rintro ⟨_, h, rfl⟩
      cases h
      rfl

theorem superOf_eq_error : s.superOf name = .error e ↔ s.find name = .error e := by
  rw [superOf]
  cases s.find name with
  | error e' => exact ⟨fun h => by cases h; rfl, fun h => by cases h; rfl⟩
  | ok declared => exact ⟨nofun, nofun⟩

theorem leads_superOf : Leads s.superOf = s.HasSuper := by
  funext name super
  exact propext superOf_eq_ok

theorem ends_superOf_iff : Ends s.superOf name ↔ ∃ root declared,
    Relation.ReflTransGen s.HasSuper name root ∧ s.Declares root declared ∧
      declared.super = none := by
  rw [Ends, leads_superOf]
  simp only [superOf_eq_ok, exists_and_left]

/-- Following supers fails exactly where it comes to one that is not declared, with the name of that
one. -/
theorem fails_superOf_iff : Fails s.superOf name e ↔ ∃ missing,
    Relation.ReflTransGen s.HasSuper name missing ∧ (∀ declared, ¬s.Declares missing declared) ∧
      e = .objectNotFound missing := by
  rw [Fails, leads_superOf]
  exact exists_congr fun missing =>
    and_congr_right fun _ => superOf_eq_error.trans find_eq_error

/-- Supers that come to a struct under another name come back to the super of that struct. -/
theorem loops_superOf_iff : Loops s.superOf name ↔ s.Cyclic name := by
  rw [Loops, Cyclic, leads_superOf]
  constructor
  · rintro ⟨first, hfirst, hloop⟩
    exact ⟨first, first, hfirst, hloop, sameName_iff.2 rfl⟩
  · rintro ⟨first, again, hfirst, hagain, hsame⟩
    obtain ⟨super, hsuper, hrest⟩ := Relation.TransGen.head'_iff.1 hagain
    exact ⟨super, hfirst.tail hsuper, .tail' hrest (hsuper.congr hsame)⟩

/-! ## The walk -/

/-- The names of the supers that are declared. -/
def supers (s : Schema) : List String :=
  s.structs.filterMap fun entry => entry.2.super

theorem mem_supers (h : s.HasSuper name super) : super ∈ s.supers := by
  obtain ⟨declared, hdeclared, hsuper⟩ := h
  exact List.mem_filterMap.2 ⟨_, mem_of_lookup hdeclared, hsuper⟩

/-- The chain of a struct is that of its super and its own declaration behind it. -/
theorem superChain_succ_eq_ok : s.superChain start (room + 1) (some name) = .ok chain ↔
    ∃ declared supers, s.Declares name declared ∧
      s.superChain start room declared.super = .ok supers ∧ chain = supers ++ [declared] := by
  rw [superChain, except_bind_eq_ok]
  refine exists_congr fun declared => ?_
  rw [find_eq_ok, except_bind_eq_ok, ← exists_and_left]
  refine exists_congr fun supers => and_congr_right fun _ => and_congr_right fun _ => ?_
  exact ⟨fun h => (Except.ok.inj h).symm, fun h => h ▸ rfl⟩

/-- Supers that were listed are listed for any start and with more room. -/
theorem superChain_mono (h : s.superChain start room current = .ok chain) (hroom : room ≤ room') :
    s.superChain start' room' current = .ok chain := by
  induction room generalizing room' current chain with
  | zero =>
    cases current with
    | none => rw [← h, superChain, superChain]
    | some name =>
      obtain ⟨_, -, h⟩ := except_bind_eq_ok.1 h
      cases h
  | succ room ih =>
    cases current with
    | none => rw [← h, superChain, superChain]
    | some name =>
      obtain ⟨room', rfl⟩ := Nat.exists_eq_add_of_le' (Nat.zero_lt_of_lt hroom)
      obtain ⟨declared, supers, hdeclared, hsupers, rfl⟩ := superChain_succ_eq_ok.1 h
      exact superChain_succ_eq_ok.2
        ⟨declared, supers, hdeclared, ih hsupers (Nat.le_of_succ_le_succ hroom), rfl⟩

/-- Supers are listed only if they end. -/
theorem ends_of_superChain (h : s.superChain start room (some name) = .ok chain) :
    Ends s.superOf name := by
  induction room generalizing name chain with
  | zero =>
    obtain ⟨_, -, h⟩ := except_bind_eq_ok.1 h
    cases h
  | succ room ih =>
    obtain ⟨declared, supers, hdeclared, hsupers, rfl⟩ := superChain_succ_eq_ok.1 h
    have hstep : s.superOf name = .ok declared.super := superOf_eq_ok.2 ⟨declared, hdeclared, rfl⟩
    cases hsuper : declared.super with
    | none => exact ⟨name, .refl, hsuper ▸ hstep⟩
    | some super =>
      rw [hsuper] at hsupers hstep
      exact (ih hsupers).head hstep

/-- Supers are not listed only if a name on the way is not declared, or there is no room for
them. -/
theorem superChain_eq_error (h : s.superChain start room (some name) = .error e) :
    Fails s.superOf name e ∨ e = .superChainLoops start ∧
      ∃ names, (name :: names).IsChain (Leads s.superOf) ∧ names ⊆ s.supers ∧
        names.length = room := by
  induction room generalizing name with
  | zero =>
    rcases except_bind_eq_error.1 h with hfind | ⟨declared, -, hthrow⟩
    · exact .inl ⟨name, .refl, superOf_eq_error.2 hfind⟩
    · exact .inr ⟨(Except.error.inj hthrow).symm, [], .singleton name, List.nil_subset _, rfl⟩
  | succ room ih =>
    rcases except_bind_eq_error.1 h with hfind | ⟨declared, hfind, hrest⟩
    · exact .inl ⟨name, .refl, superOf_eq_error.2 hfind⟩
    have hstep : s.superOf name = .ok declared.super :=
      superOf_eq_ok.2 ⟨declared, find_eq_ok.1 hfind, rfl⟩
    rcases except_bind_eq_error.1 hrest with hsupers | ⟨supers, -, hpure⟩
    · cases hsuper : declared.super with
      | none =>
        rw [hsuper, superChain] at hsupers
        cases hsupers
      | some super =>
        rw [hsuper] at hsupers hstep
        rcases ih hsupers with hfails | ⟨rfl, names, hnames, hsub, hlength⟩
        · exact .inl (hfails.head hstep)
        · have hmem : super ∈ s.supers := mem_supers (superOf_eq_ok.1 hstep)
          exact .inr ⟨rfl, super :: names, hnames.cons_cons hstep, List.cons_subset.2 ⟨hmem, hsub⟩,
            congrArg (· + 1) hlength⟩
    · cases hpure

/-! ## Fields -/

theorem fields_eq_ok : s.fields name = .ok ts ↔
    ∃ chain, s.superChain name (s.structs.length + 1) (some name) = .ok chain ∧
      chain.flatMap StructSchema.fields = ts := by
  rw [fields, except_bind_eq_ok]
  exact exists_congr fun chain => and_congr_right fun _ => ⟨Except.ok.inj, congrArg _⟩

/-- The fields of a struct tell how the steps to its supers go on. -/
theorem reports_fields (s : Schema) (name : String) :
    Reports s.superOf name (.superChainLoops name) (s.fields name) := by
  constructor
  · intro ts h
    obtain ⟨chain, hchain, -⟩ := fields_eq_ok.1 h
    exact ends_of_superChain hchain
  · intro e h
    rcases except_bind_eq_error.1 h with hchain | ⟨chain, -, hpure⟩
    · refine (superChain_eq_error hchain).imp_right ?_
      rintro ⟨rfl, names, hnames, hsub, hlength⟩
      refine ⟨rfl, loops_of_isChain hnames hsub ?_⟩
      rw [hlength]
      exact Nat.lt_succ_of_le (List.length_filterMap_le _ _)
    · cases hpure

/-- The fields of a struct are those of its super and then its own. -/
theorem flattened_of_fields (h : s.fields name = .ok ts) : s.Flattened name ts := by
  obtain ⟨chain, hchain, rfl⟩ := fields_eq_ok.1 h
  obtain ⟨declared, supers, hdeclared, hsupers, rfl⟩ := superChain_succ_eq_ok.1 hchain
  refine ⟨declared, hdeclared, ?_⟩
  rw [List.flatMap_append, List.flatMap_singleton]
  cases hsuper : declared.super with
  | none =>
    rw [hsuper, superChain] at hsupers
    cases hsupers
    exact .inl ⟨rfl, rfl⟩
  | some super =>
    rw [hsuper] at hsupers
    have hbase := fields_eq_ok.2 ⟨supers, superChain_mono hsupers (Nat.le_succ _), rfl⟩
    exact .inr ⟨super, _, rfl, hbase, rfl⟩

/-- The fields that are found are those of the supers and its own, flattened. -/
theorem fields_eq_ok_iff : s.fields name = .ok ts ↔ s.Flattened name ts := by
  refine ⟨flattened_of_fields, ?_⟩
  rintro ⟨declared, hdeclared, hsuper⟩
  have hends : Ends s.superOf name := by
    rcases hsuper with ⟨hnone, -⟩ | ⟨super, base, hsome, hbase, -⟩
    · exact ⟨name, .refl, superOf_eq_ok.2 ⟨declared, hdeclared, hnone⟩⟩
    · have hbaseEnds : Ends s.superOf super := (reports_fields s super).ends base hbase
      exact hbaseEnds.head (superOf_eq_ok.2 ⟨declared, hdeclared, hsome⟩)
  obtain ⟨found, hfound⟩ := (reports_fields s name).exists_iff.2 hends
  obtain ⟨declared', hdeclared', hsuper'⟩ := flattened_of_fields hfound
  cases hdeclared.symm.trans hdeclared'
  suffices hsame : found = ts by rw [hfound, hsame]
  rcases hsuper with ⟨hnone, rfl⟩ | ⟨super, base, hsome, hbase, rfl⟩ <;>
    rcases hsuper' with ⟨hnone', rfl⟩ | ⟨super', base', hsome', hbase', rfl⟩
  · rfl
  · cases hnone.symm.trans hsome'
  · cases hsome.symm.trans hnone'
  · cases hsome.symm.trans hsome'
    cases hbase.symm.trans hbase'
    rfl

/-- What the fields of a struct in a schema are, its name written in any case. Either its supers end
in a struct without one, and the fields are those of its super and then its own; or a name on the
way is not declared, and this is told as it is spelled there; or the supers come to a struct twice,
which is told with the name that was asked for. -/
theorem fields_outcome (s : Schema) (name : String) :
    ((∃ ts, s.fields name = .ok ts) ↔ ∃ root declared,
      Relation.ReflTransGen s.HasSuper name root ∧ s.Declares root declared ∧
        declared.super = none) ∧
    (∀ ts, s.fields name = .ok ts ↔ s.Flattened name ts) ∧
    (∀ missing, s.fields name = .error (.objectNotFound missing) ↔
      Relation.ReflTransGen s.HasSuper name missing ∧ ∀ declared, ¬s.Declares missing declared) ∧
    (s.fields name = .error (.superChainLoops name) ↔ s.Cyclic name) ∧
    ((∃ ts, s.fields name = .ok ts) ∨
      (∃ missing, s.fields name = .error (.objectNotFound missing)) ∨
      s.fields name = .error (.superChainLoops name)) ∧
    ∀ name', sameName name name' = true →
      ∀ ts, s.fields name = .ok ts ↔ s.fields name' = .ok ts := by
  have hmissing : ∀ missing, s.fields name = .error (.objectNotFound missing) ↔
      Relation.ReflTransGen s.HasSuper name missing ∧
        ∀ declared, ¬s.Declares missing declared := by
    intro missing
    rw [(reports_fields s name).error_iff, fails_superOf_iff]
    constructor
    · rintro (⟨_, hreached, hnone, hsame⟩ | ⟨hsame, -⟩) <;> cases hsame
      exact ⟨hreached, hnone⟩
    · rintro ⟨hreached, hnone⟩
      exact .inl ⟨missing, hreached, hnone, rfl⟩
  have hcyclic : s.fields name = .error (.superChainLoops name) ↔ s.Cyclic name := by
    rw [(reports_fields s name).error_iff, fails_superOf_iff, ← loops_superOf_iff]
    constructor
    · rintro (⟨_, -, -, hsame⟩ | ⟨-, hloops⟩)
      · cases hsame
      · exact hloops
    · exact fun hloops => .inr ⟨rfl, hloops⟩
  refine ⟨(reports_fields s name).exists_iff.trans ends_superOf_iff, fun _ => fields_eq_ok_iff,
    hmissing, hcyclic, ?_, fun name' hsame ts => ?_⟩
  · cases hfields : s.fields name with
    | ok ts => exact .inl ⟨ts, rfl⟩
    | error e =>
      rcases (reports_fields s name).stops e hfields with hfails | ⟨rfl, -⟩
      · obtain ⟨missing, -, -, rfl⟩ := fails_superOf_iff.1 hfails
        exact .inr (.inl ⟨missing, rfl⟩)
      · exact .inr (.inr rfl)
  · exact fields_eq_ok_iff.trans ((flattened_congr hsame).trans fields_eq_ok_iff.symm)

/-- A schema in which an actor derives from an object, a ring from itself and a stray from a struct
that is not declared. -/
def actorSchema : Schema := ⟨[
  ("core.object", ⟨none, [⟨"Name", .name, 1⟩]⟩),
  ("engine.actor", ⟨some "Core.Object", [⟨"Health", .int, 1⟩]⟩),
  ("ring", ⟨some "RING", []⟩),
  ("stray", ⟨some "Nowhere", []⟩)]⟩

/-- A class with a super, a ring and a class whose super is missing, and a name in two cases. -/
theorem fields_outcome_actor :
    (∃ ts, actorSchema.fields "Engine.ACTOR" = .ok ts) ∧
    actorSchema.fields "Ring" = .error (.superChainLoops "Ring") ∧
    actorSchema.fields "Stray" = .error (.objectNotFound "Nowhere") ∧
    sameName "Engine.ACTOR" "engine.actor" = true ∧
    ∀ ts, actorSchema.fields "Engine.ACTOR" = .ok ts ↔
      actorSchema.fields "engine.actor" = .ok ts := by
  obtain ⟨hends, -, -, -, -, hspelled⟩ := fields_outcome actorSchema "Engine.ACTOR"
  obtain ⟨-, -, -, hcyclic, -⟩ := fields_outcome actorSchema "Ring"
  obtain ⟨-, -, hmissing, -⟩ := fields_outcome actorSchema "Stray"
  have hactor : actorSchema.HasSuper "Engine.ACTOR" "Core.Object" := ⟨_, rfl, rfl⟩
  have hring : actorSchema.HasSuper "Ring" "RING" := ⟨_, rfl, rfl⟩
  have hstray : actorSchema.HasSuper "Stray" "Nowhere" := ⟨_, rfl, rfl⟩
  refine ⟨hends.2 ⟨"Core.Object", _, .single hactor, rfl, rfl⟩,
    hcyclic.2 ⟨"Ring", "RING", .refl, .single hring, rfl⟩,
    (hmissing "Nowhere").2 ⟨.single hstray, nofun⟩, rfl, hspelled _ rfl⟩

end Schema

end UnrealPackage
