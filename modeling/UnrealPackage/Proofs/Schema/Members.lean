import UnrealPackage.Proofs.Schema.Flattening
import UnrealPackage.Proofs.Text.Charset
import UnrealPackage.Schema.Json
/-!
# Schemas and the order of their members

The members of a JSON object have no order, so that in which they are read is not to be relied on.
`Schema.ofDeclarations` is the schema for one order, and `schema?_object` says that a schema is read
as its members and made of them.

A schema declares what the last of its members for a name declares, in any case of its letters. So
the order counts only for members whose keys are the same but for case: if these declare the same,
all orders make schemas with the same fields (`ofJson_reordered`), and otherwise they need not
(`ofJson_reordered_collision`).
-/

namespace UnrealPackage

/-- What is made of each item does not depend on their order. -/
theorem exists_mapM_of_perm {α β : Type} {f : α → Option β} {as as' : List α} {bs : List β}
    (hperm : as.Perm as') (h : as.mapM f = some bs) :
    ∃ bs', as'.mapM f = some bs' ∧ bs.Perm bs' := by
  induction hperm generalizing bs with
  | nil => exact ⟨bs, h, .refl _⟩
  | cons a _ ih =>
    obtain ⟨b, bs, hb, hbs, rfl⟩ := mapM_cons_eq_some.1 h
    obtain ⟨bs', hbs', hperm⟩ := ih hbs
    exact ⟨b :: bs', mapM_cons_eq_some.2 ⟨b, bs', hb, hbs', rfl⟩, hperm.cons b⟩
  | swap a a' as =>
    obtain ⟨b', _, hb', hrest, rfl⟩ := mapM_cons_eq_some.1 h
    obtain ⟨b, bs, hb, hbs, rfl⟩ := mapM_cons_eq_some.1 hrest
    have hswapped := mapM_cons_eq_some.2 ⟨b', bs, hb', hbs, rfl⟩
    exact ⟨b :: b' :: bs, mapM_cons_eq_some.2 ⟨b, _, hb, hswapped, rfl⟩, .swap b b' bs⟩
  | trans _ _ ih ih' =>
    obtain ⟨bs', hbs', hperm⟩ := ih h
    obtain ⟨bs'', hbs'', hperm'⟩ := ih' hbs'
    exact ⟨bs'', hbs'', hperm.trans hperm'⟩

/-- Each result was made of one of the items. -/
theorem exists_mem_of_mapM {α β : Type} {f : α → Option β} {as : List α} {bs : List β} {b : β}
    (h : as.mapM f = some bs) (hb : b ∈ bs) : ∃ a ∈ as, f a = some b := by
  induction as generalizing bs with
  | nil =>
    cases h
    cases hb
  | cons a as ih =>
    obtain ⟨b', bs', hfirst, hrest, rfl⟩ := mapM_cons_eq_some.1 h
    rcases List.mem_cons.1 hb with rfl | hb
    · exact ⟨a, List.mem_cons_self, hfirst⟩
    · obtain ⟨x, hx, hread⟩ := ih hrest hb
      exact ⟨x, List.mem_cons_of_mem a hx, hread⟩

namespace Schema

variable {s s' : Schema} {name : String} {declared : StructSchema}
  {ds ds' : List (String × StructSchema)} {d : String × StructSchema}

/-! ## Schemas that declare the same -/

/-- Chains are the same in schemas that find the same. -/
theorem superChain_congr (h : ∀ name, s.find name = s'.find name) (start : String) (room : Nat)
    (current : Option String) : s.superChain start room current =
      s'.superChain start room current := by
  induction room generalizing current with
  | zero =>
    cases current with
    | none => rw [superChain, superChain]
    | some name => rw [superChain, superChain, h]
  | succ room ih =>
    cases current with
    | none => rw [superChain, superChain]
    | some name =>
      rw [superChain, superChain, h]
      simp only [ih]

/-- The fields of a struct depend on nothing but what is declared, not on how many structs are. -/
theorem fields_congr (h : ∀ name, s.find name = s'.find name) (name : String) :
    s.fields name = s'.fields name := by
  have hsuper : s.superOf = s'.superOf := by
    funext name
    rw [superOf, superOf, h]
  have hreports' := reports_fields s' name
  rw [← hsuper] at hreports'
  cases hfields : s.fields name with
  | error e =>
    have hfails := (reports_fields s name).error_iff.1 hfields
    exact (hreports'.error_iff.2 hfails).symm
  | ok ts =>
    have hends := (reports_fields s name).ends ts hfields
    obtain ⟨ts', hfields'⟩ := hreports'.exists_iff.2 hends
    obtain ⟨chain, hchain, rfl⟩ := fields_eq_ok.1 hfields
    obtain ⟨chain', hchain', rfl⟩ := fields_eq_ok.1 hfields'
    -- with room enough for both, the two walks are one
    have hlong : s.superChain name _ (some name) = .ok chain :=
      superChain_mono hchain (Nat.le_max_left _ (s'.structs.length + 1))
    have hlong' : s'.superChain name _ (some name) = .ok chain' :=
      superChain_mono hchain' (Nat.le_max_right (s.structs.length + 1) _)
    rw [superChain_congr h] at hlong
    cases hlong.symm.trans hlong'
    exact hfields'.symm

/-- Schemas that declare the same find the same. -/
theorem find_congr (h : ∀ name declared, s.Declares name declared ↔ s'.Declares name declared)
    (name : String) : s.find name = s'.find name := by
  cases hfind : s.find name with
  | ok declared => exact (find_eq_ok.2 ((h _ _).1 (find_eq_ok.1 hfind))).symm
  | error e =>
    obtain ⟨hnone, rfl⟩ := find_eq_error.1 hfind
    exact (find_eq_error.2 ⟨fun declared hd => hnone declared ((h _ _).2 hd), rfl⟩).symm

/-! ## Structs declared one after the other -/

/-- The schema with structs declared one after the other. -/
def ofDeclarations (ds : List (String × StructSchema)) : Schema :=
  ds.foldl (fun s d => s.insert d.1 d.2) .empty

/-- Whether names that are the same but for case are declared alike. -/
def Consistent (ds : List (String × StructSchema)) : Prop :=
  ∀ d ∈ ds, ∀ d' ∈ ds, sameName d.1 d'.1 = true → d.2 = d'.2

theorem ofDeclarations_concat (ds : List (String × StructSchema)) (d : String × StructSchema) :
    ofDeclarations (ds ++ [d]) = (ofDeclarations ds).insert d.1 d.2 :=
  List.foldl_concat _ _ _ _

theorem Consistent.perm (h : Consistent ds) (hperm : ds'.Perm ds) : Consistent ds' :=
  fun d hd d' hd' => h d (hperm.mem_iff.1 hd) d' (hperm.mem_iff.1 hd')

theorem Consistent.init (h : Consistent (ds ++ [d])) : Consistent ds :=
  fun x hx y hy => h x (List.mem_append_left _ hx) y (List.mem_append_left _ hy)

/-- Of consistent declarations each one counts. -/
theorem declares_ofDeclarations_iff (h : Consistent ds) :
    (ofDeclarations ds).Declares name declared ↔
      ∃ d ∈ ds, sameName d.1 name = true ∧ d.2 = declared := by
  induction ds using List.reverseRecOn with
  | nil => exact ⟨nofun, nofun⟩
  | append_singleton ds d ih =>
    rw [ofDeclarations_concat, declares_insert_iff]
    split
    · next hlast =>
      constructor
      · exact fun hd => ⟨d, List.mem_concat_self, hlast, hd⟩
      · rintro ⟨x, hx, hsame, rfl⟩
        have hnames : sameName d.1 x.1 = true :=
          sameName_iff.2 ((sameName_iff.1 hlast).trans (sameName_iff.1 hsame).symm)
        exact h d List.mem_concat_self x hx hnames
    · next hother =>
      rw [ih h.init]
      refine exists_congr fun x => and_congr_left fun ⟨hsame, _⟩ => ?_
      rw [List.mem_append, List.mem_singleton, or_iff_left]
      rintro rfl
      exact hother hsame

theorem find_ofDeclarations_perm (h : Consistent ds) (hperm : ds'.Perm ds) (name : String) :
    (ofDeclarations ds').find name = (ofDeclarations ds).find name := by
  refine find_congr (fun name declared => ?_) name
  rw [declares_ofDeclarations_iff h, declares_ofDeclarations_iff (h.perm hperm)]
  exact exists_congr fun d => and_congr_left fun _ => hperm.mem_iff

/-- Consistent declarations make schemas with the same fields in every order. -/
theorem fields_ofDeclarations_perm (h : Consistent ds) (hperm : ds'.Perm ds) (name : String) :
    (ofDeclarations ds').fields name = (ofDeclarations ds).fields name :=
  fields_congr (find_ofDeclarations_perm h hperm) name

end Schema

namespace Json

/-- The declaration of a struct under its name. -/
def declaration? (m : String × Json) : Option (String × StructSchema) :=
  (structSchema? m.2).map (m.1, ·)

/-- A member is a declaration if its value is a struct, under its own name. -/
theorem declaration?_eq_some {m : String × Json} {d : String × StructSchema} :
    declaration? m = some d ↔ m.1 = d.1 ∧ structSchema? m.2 = some d.2 := by
  obtain ⟨name, declared⟩ := d
  rw [declaration?, Option.map_eq_some_iff]
  constructor
  · rintro ⟨_, hd, heq⟩
    cases heq
    exact ⟨rfl, hd⟩
  · rintro ⟨rfl, hd⟩
    exact ⟨declared, hd, rfl⟩

/-- Members are declared one by one if all of them are declarations. -/
theorem foldlM_insert (members : List (String × Json)) (s : Schema) :
    (members.foldlM (fun s (name, j) => do
      let declared ← structSchema? j
      pure (s.insert name declared)) s : Option Schema) =
    (members.mapM declaration?).map (List.foldl (fun s d => s.insert d.1 d.2) s) := by
  induction members generalizing s with
  | nil => rfl
  | cons m members ih =>
    obtain ⟨name, j⟩ := m
    rw [List.foldlM_cons, List.mapM_cons, declaration?]
    dsimp only
    cases structSchema? j with
    | none => rfl
    | some declared =>
      refine (ih (s.insert name declared)).trans ?_
      cases members.mapM declaration? <;> rfl

/-- A schema is read by reading its members, and declares them in their order. -/
theorem schema?_object (members : List (String × Json)) :
    schema? (.object members) = (members.mapM declaration?).map Schema.ofDeclarations :=
  foldlM_insert members .empty

end Json

open Json

namespace Schema

/-! ## Any order -/

/-- A text is a schema if it is the text of a value that is one. -/
theorem ofJson_eq_ok {source : String} {s : Schema} :
    ofJson source = .ok s ↔ ∃ j, parse? source = some j ∧ schema? j = some s := by
  rw [ofJson, ← Option.bind_eq_some_iff]
  cases (parse? source).bind schema? with
  | none => exact ⟨nofun, nofun⟩
  | some s' => exact ⟨fun h => by cases h; rfl, fun h => by cases h; rfl⟩

/-- An object is a schema if all its members are declarations, and an error otherwise. -/
theorem ofJson_of_parse? {source : String} {members : List (String × Json)}
    (h : parse? source = some (.object members)) :
    (members.mapM declaration? = none ∧ ofJson source = .error .malformedSchema) ∨
      ∃ ds, members.mapM declaration? = some ds ∧ ofJson source = .ok (ofDeclarations ds) := by
  have hread := schema?_object members
  cases hds : members.mapM declaration? with
  | none =>
    refine .inl ⟨rfl, ?_⟩
    rw [ofJson, h, Option.bind_some, hread, hds]
    rfl
  | some ds => exact .inr ⟨ds, rfl, ofJson_eq_ok.2 ⟨_, h, by rw [hread, hds]; rfl⟩⟩

/-- The members of a schema may come in any order. Two texts with the same members, of which those
whose keys are the same but for case declare the same, are both no schemas, or both are; and then,
in whatever orders the members of either are taken, all structs have the same fields. -/
theorem ofJson_reordered {source source' : String} {members members' : List (String × Json)}
    (h : parse? source = some (.object members))
    (h' : parse? source' = some (.object members')) (hperm : members.Perm members')
    (hsame : ∀ m ∈ members, ∀ m' ∈ members, sameName m.1 m'.1 = true →
      structSchema? m.2 = structSchema? m'.2) :
    (ofJson source = .error .malformedSchema ∧ ofJson source' = .error .malformedSchema) ∨
    ∃ ds ds', members.mapM declaration? = some ds ∧ members'.mapM declaration? = some ds' ∧
      ofJson source = .ok (ofDeclarations ds) ∧ ofJson source' = .ok (ofDeclarations ds') ∧
      ∀ order order', order.Perm ds → order'.Perm ds' → ∀ name,
        (ofDeclarations order).fields name = (ofDeclarations order').fields name := by
  rcases ofJson_of_parse? h with ⟨hnone, hfails⟩ | ⟨ds, hds, hread⟩
  · rcases ofJson_of_parse? h' with ⟨-, hfails'⟩ | ⟨ds', hds', -⟩
    · exact .inl ⟨hfails, hfails'⟩
    · obtain ⟨ds, hds, -⟩ := exists_mapM_of_perm hperm.symm hds'
      cases hnone.symm.trans hds
  · obtain ⟨ds', hds', hdsPerm⟩ := exists_mapM_of_perm hperm hds
    rcases ofJson_of_parse? h' with ⟨hnone, -⟩ | ⟨_, hsome, hread'⟩
    · cases hnone.symm.trans hds'
    cases hsome.symm.trans hds'
    have hconsistent : Consistent ds := by
      intro d hd d' hd' hnames
      obtain ⟨m, hm, hread⟩ := exists_mem_of_mapM hds hd
      obtain ⟨m', hm', hread'⟩ := exists_mem_of_mapM hds hd'
      obtain ⟨hname, hdeclared⟩ := declaration?_eq_some.1 hread
      obtain ⟨hname', hdeclared'⟩ := declaration?_eq_some.1 hread'
      rw [← hname, ← hname'] at hnames
      exact Option.some.inj (hdeclared.symm.trans ((hsame m hm m' hm' hnames).trans hdeclared'))
    refine .inr ⟨ds, ds', hds, hds', hread, hread', fun order order' horder horder' name => ?_⟩
    rw [fields_ofDeclarations_perm hconsistent horder,
      fields_ofDeclarations_perm hconsistent (horder'.trans hdsPerm.symm)]

/-- A pawn and, under two spellings of its name, the actor from which it derives. -/
def pawnMembers : List (String × Json) :=
  [("Pawn", .object [("super", .string "ACTOR")]), ("Actor", .object []), ("actor", .object [])]

/-- The text of the members. -/
def pawnText : String :=
  "\x7b\"Pawn\":\x7b\"super\":\"ACTOR\"\x7d,\"Actor\":\x7b\x7d,\"actor\":\x7b\x7d\x7d"

/-- The text of the members in the other order. -/
def pawnTextReversed : String :=
  "\x7b\"actor\":\x7b\x7d,\"Actor\":\x7b\x7d,\"Pawn\":\x7b\"super\":\"ACTOR\"\x7d\x7d"

/-- The members of an object in two orders make schemas that find the same fields. -/
theorem ofJson_reordered_pawn :
    ∃ ds ds', ofJson pawnText = .ok (ofDeclarations ds) ∧
      ofJson pawnTextReversed = .ok (ofDeclarations ds') ∧
      ∀ order order', order.Perm ds → order'.Perm ds' → ∀ name,
        (ofDeclarations order).fields name = (ofDeclarations order').fields name := by
  have h : parse? pawnText = some (.object pawnMembers) := by rfl
  have h' : parse? pawnTextReversed = some (.object pawnMembers.reverse) := by rfl
  have hsame : ∀ m ∈ pawnMembers, ∀ m' ∈ pawnMembers, sameName m.1 m'.1 = true →
      structSchema? m.2 = structSchema? m'.2 := by decide
  rcases ofJson_reordered h h' (List.reverse_perm _).symm hsame with ⟨hfails, -⟩ | ⟨ds, ds', hread⟩
  · have hread : ofJson pawnText = .ok ⟨[("pawn", ⟨some "ACTOR", []⟩), ("actor", ⟨none, []⟩)]⟩ :=
      ofJson_eq_ok.2 ⟨_, h, rfl⟩
    cases hread.symm.trans hfails
  · exact ⟨ds, ds', hread.2.2⟩

/-- Two structs of the same name but for case, of which one has a field. -/
def collidingMembers : List (String × Json) :=
  [("A", .object []), ("a", .object [("fields", .array [.object [("name", .string "X"),
    ("kind", .object [("type", .string "Int")])]])])]

/-- What they declare. -/
def collidingDeclarations : List (String × StructSchema) :=
  [("A", ⟨none, []⟩), ("a", ⟨none, [⟨"X", .int, 1⟩]⟩)]

/-- Their text. -/
def collidingText : String :=
  "\x7b\"A\":\x7b\x7d,\"a\":\x7b\"fields\":[" ++
    "\x7b\"name\":\"X\",\"kind\":\x7b\"type\":\"Int\"\x7d\x7d]\x7d\x7d"

/-- Their text in the other order. -/
def collidingTextReversed : String :=
  "\x7b\"a\":\x7b\"fields\":[\x7b\"name\":\"X\",\"kind\":\x7b\"type\":\"Int\"\x7d\x7d]\x7d," ++
    "\"A\":\x7b\x7d\x7d"

set_option maxRecDepth 4000 in
/-- There the order counts, though no key comes twice: the struct has the fields of the member that
is taken last. -/
theorem ofJson_reordered_collision :
    parse? collidingText = some (.object collidingMembers) ∧
      parse? collidingTextReversed = some (.object collidingMembers.reverse) ∧
      (collidingMembers.map Prod.fst).Nodup ∧
      collidingMembers.mapM declaration? = some collidingDeclarations ∧
      ofJson collidingText = .ok (ofDeclarations collidingDeclarations) ∧
      ofJson collidingTextReversed = .ok (ofDeclarations collidingDeclarations.reverse) ∧
      (ofDeclarations collidingDeclarations).fields "a" = .ok [⟨"X", .int, 1⟩] ∧
      (ofDeclarations collidingDeclarations.reverse).fields "a" = .ok [] := by
  have h : parse? collidingText = some (.object collidingMembers) := by rfl
  have h' : parse? collidingTextReversed = some (.object collidingMembers.reverse) := by rfl
  refine ⟨h, h', by decide, rfl, ofJson_eq_ok.2 ⟨_, h, rfl⟩, ofJson_eq_ok.2 ⟨_, h', rfl⟩, ?_, ?_⟩
  · rfl
  · rfl

end Schema

end UnrealPackage
