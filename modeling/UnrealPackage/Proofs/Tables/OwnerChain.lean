import UnrealPackage.Proofs.Library.Walk
import UnrealPackage.Proofs.Tables.FullNameMemo
import UnrealPackage.Proofs.Tables.Owners
/-!
# Full names and chains of owners

`Remembering.innerFullName_outcome` says what the full name of an object is, for any tables and
whatever was asked of them before. If the chain of its owners leads up to nothing, the name lists
theirs; if not, either the chain comes back to an entry, or it leads to a reference or to a name
that is not in the tables.

Following the chain is a walk, whose steps are `Tables.climb`. It gives up after one entry more than
the tables have, so it gives up only where the owners form a ring.
-/

namespace UnrealPackage

namespace Tables

variable {t : Tables} {r r' top start : ObjectRef} {e : TableEntry} {path path' : List TableEntry}
  {index : NameIndex} {error : Error} {room : Nat}

/-! ## References and names -/

/-- Whether an index lies in the name table. -/
def InNames (t : Tables) (index : NameIndex) : Prop :=
  0 ≤ index.toInt ∧ index.toInt < t.names.length

instance (t : Tables) (index : NameIndex) : Decidable (t.InNames index) :=
  inferInstanceAs (Decidable (_ ∧ _))

/-- What is wrong with the object that a reference leads to: it lies outside its table, or its name
does. -/
inductive Stray (t : Tables) (r : ObjectRef) : Error → Prop
  | exported {i : Nat} : r.target = .exported i → t.exports.length ≤ i →
    Stray t r (.outOfRange .exports i t.exports.length)
  | imported {i : Nat} : r.target = .imported i → t.imports.length ≤ i →
    Stray t r (.outOfRange .imports i t.imports.length)
  | named {e : TableEntry} : t.object r = .ok (some e) → ¬t.InNames e.objectName →
    Stray t r (.outOfRange .names e.objectName.toInt t.names.length)

/-- The entries on the way from an object through its owners as far as `top`, all of which have
names. -/
def NamedPath (t : Tables) (top r : ObjectRef) (path : List TableEntry) : Prop :=
  t.OwnerPath top r path ∧ ∀ e ∈ path, t.InNames e.objectName

/-- A name is found exactly if its index lies in the table. -/
theorem name_cases (t : Tables) (index : NameIndex) :
    t.InNames index ∧ t.name index = .ok (t.spelling index) ∨
      ¬t.InNames index ∧
        t.name index = .error (.outOfRange .names index.toInt t.names.length) := by
  by_cases hpos : 0 ≤ index.toInt
  · cases hfound : t.names[index.toInt.toNat]? with
    | some entry =>
      have hlt := (List.getElem?_eq_some_iff.1 hfound).1
      have hname : t.name index = .ok entry.name := by
        rw [name, if_pos hpos, hfound]
        rfl
      exact .inl ⟨⟨hpos, by omega⟩, (name_eq_ok hname).1⟩
    | none =>
      have hge := List.getElem?_eq_none_iff.1 hfound
      refine .inr ⟨fun h => ?_, ?_⟩
      · have := h.2
        omega
      · rw [name, if_pos hpos, hfound]
        rfl
  · refine .inr ⟨fun h => hpos h.1, ?_⟩
    rw [name, if_neg hpos]
    rfl

theorem inNames_iff : t.InNames index ↔ t.name index = .ok (t.spelling index) := by
  rcases t.name_cases index with ⟨hname, heq⟩ | ⟨hname, heq⟩
  · exact ⟨fun _ => heq, fun _ => hname⟩
  · rw [heq]
    exact ⟨fun h => absurd h hname, nofun⟩

/-- What leads to an entry is the reference of that entry. -/
theorem eq_reference (h : t.object r = .ok (some e)) : r = e.reference := by
  rcases object_eq_some.1 h with ⟨i, x, rfl, htarget, -⟩ | ⟨i, x, rfl, htarget, -⟩
  · exact ObjectRef.eq_ofExport htarget
  · exact ObjectRef.eq_ofImport htarget

/-! ## Steps to owners -/

/-- The owner of an object that has a name; nothing above the root. -/
def climb (t : Tables) (r : ObjectRef) : Except Error (Option ObjectRef) := do
  match ← t.object r with
  | none => pure none
  | some e =>
    let _ ← t.name e.objectName
    pure (some e.outer)

theorem climb_of_object (he : t.object r = .ok (some e)) :
    t.climb r = t.name e.objectName >>= fun _ => pure (some e.outer) := by
  rw [climb, he, except_ok_bind]

/-- A reference that leads nowhere is a stray with the error of that. -/
theorem Stray.of_object (h : t.object r = .error error) : t.Stray r error := by
  rw [object] at h
  split at h
  · cases h
  · next i htarget =>
    rw [exportAt] at h
    split at h
    · cases h
    · next hnone =>
      cases h
      exact .exported htarget (List.getElem?_eq_none_iff.1 hnone)
  · next i htarget =>
    rw [importAt] at h
    split at h
    · cases h
    · next hnone =>
      cases h
      exact .imported htarget (List.getElem?_eq_none_iff.1 hnone)

/-- No step leads on from what is wrong. -/
theorem Stray.climb_eq (h : t.Stray r error) : t.climb r = .error error := by
  cases h with
  | exported htarget hlength =>
    rw [climb, object, htarget]
    dsimp only
    rw [exportAt, List.getElem?_eq_none hlength]
    rfl
  | imported htarget hlength =>
    rw [climb, object, htarget]
    dsimp only
    rw [importAt, List.getElem?_eq_none hlength]
    rfl
  | named he hname =>
    rw [climb_of_object he, (t.name_cases _).resolve_left (fun h => hname h.1) |>.2]
    rfl

/-- A step leads from the root to nothing, from an object to its owner, or to an error. -/
theorem climb_cases (t : Tables) (r : ObjectRef) :
    r = .none ∧ t.climb r = .ok none ∨
    (∃ e, t.object r = .ok (some e) ∧ t.InNames e.objectName ∧ t.climb r = .ok (some e.outer)) ∨
    ∃ error, t.Stray r error ∧ t.climb r = .error error := by
  cases hobject : t.object r with
  | error error =>
    have hstray := Stray.of_object hobject
    exact .inr (.inr ⟨error, hstray, hstray.climb_eq⟩)
  | ok found =>
    cases found with
    | none =>
      obtain rfl := object_eq_none.1 hobject
      exact .inl ⟨rfl, rfl⟩
    | some e =>
      rcases t.name_cases e.objectName with ⟨hname, heq⟩ | ⟨hname, -⟩
      · refine .inr (.inl ⟨e, rfl, hname, ?_⟩)
        rw [climb_of_object hobject, heq]
        rfl
      · have hstray : t.Stray r _ := .named hobject hname
        exact .inr (.inr ⟨_, hstray, hstray.climb_eq⟩)

/-- Only the empty reference has no owner to climb to. -/
theorem climb_eq_none : t.climb r = .ok none ↔ r = .none := by
  refine ⟨fun h => ?_, fun h => h ▸ rfl⟩
  rcases t.climb_cases r with ⟨hnone, -⟩ | ⟨e, -, -, heq⟩ | ⟨_, -, heq⟩
  · exact hnone
  · cases h.symm.trans heq
  · cases h.symm.trans heq

theorem climb_eq_error : t.climb r = .error error ↔ t.Stray r error := by
  refine ⟨fun h => ?_, Stray.climb_eq⟩
  rcases t.climb_cases r with ⟨-, heq⟩ | ⟨e, -, -, heq⟩ | ⟨_, hstray, heq⟩ <;>
    cases h.symm.trans heq
  exact hstray

/-- A reference climbs to the owner of its object, if that has a name. -/
theorem leads_climb_iff : Leads t.climb r r' ↔
    ∃ e, t.object r = .ok (some e) ∧ t.InNames e.objectName ∧ e.outer = r' := by
  constructor
  · intro h
    rcases t.climb_cases r with ⟨-, heq⟩ | ⟨e, he, hname, heq⟩ | ⟨_, -, heq⟩ <;>
      cases h.symm.trans heq
    exact ⟨e, he, hname, rfl⟩
  · rintro ⟨e, he, hname, rfl⟩
    rw [Leads, climb_of_object he, inNames_iff.1 hname]
    rfl

theorem NamedPath.here : t.NamedPath top top [] :=
  ⟨.here, nofun⟩

/-- A path of names begins with the object and goes on with its owner. -/
theorem namedPath_cons : t.NamedPath top r (e :: path) ↔
    t.object r = .ok (some e) ∧ t.InNames e.objectName ∧ t.NamedPath top e.outer path := by
  constructor
  · rintro ⟨hpath, hnames⟩
    obtain ⟨hname, hrest⟩ := List.forall_mem_cons.1 hnames
    cases hpath with
    | owned he hpath => exact ⟨he, hname, hpath, hrest⟩
  · rintro ⟨he, hname, hpath, hrest⟩
    exact ⟨.owned he hpath, List.forall_mem_cons.2 ⟨hname, hrest⟩⟩

/-- Steps lead along the ways through owners that have names. -/
theorem reaches_climb_iff : Relation.ReflTransGen (Leads t.climb) r top ↔
    ∃ path, t.NamedPath top r path := by
  constructor
  · intro h
    induction h using Relation.ReflTransGen.head_induction_on with
    | refl => exact ⟨[], .here⟩
    | head hstep _ ih =>
      obtain ⟨e, he, hname, rfl⟩ := leads_climb_iff.1 hstep
      obtain ⟨path, hpath⟩ := ih
      exact ⟨e :: path, namedPath_cons.2 ⟨he, hname, hpath⟩⟩
  · rintro ⟨path, hpath⟩
    induction path generalizing r with
    | nil =>
      cases hpath.1
      exact .refl
    | cons e path ih =>
      obtain ⟨he, hname, hrest⟩ := namedPath_cons.1 hpath
      exact (ih hrest).head (leads_climb_iff.2 ⟨e, he, hname, rfl⟩)

/-- The climb ends exactly where a path of names does. -/
theorem ends_climb_iff : Ends t.climb r ↔ ∃ path, t.NamedPath .none r path := by
  rw [← reaches_climb_iff]
  constructor
  · rintro ⟨top, hreached, hlast⟩
    exact climb_eq_none.1 hlast ▸ hreached
  · exact fun hreached => ⟨.none, hreached, rfl⟩

theorem fails_climb_iff : Fails t.climb r error ↔
    ∃ top path, t.NamedPath top r path ∧ t.Stray top error := by
  simp only [Fails, reaches_climb_iff, climb_eq_error, exists_and_right]

/-- Steps loop where owners with names come back to an object. -/
theorem loops_climb_iff : Loops t.climb r ↔
    ∃ top front ring, t.NamedPath top r front ∧ t.NamedPath top top ring ∧ ring ≠ [] := by
  constructor
  · rintro ⟨top, hreached, hloop⟩
    obtain ⟨front, hfront⟩ := reaches_climb_iff.1 hreached
    obtain ⟨owner, hstep, hrest⟩ := Relation.TransGen.head'_iff.1 hloop
    obtain ⟨e, he, hname, rfl⟩ := leads_climb_iff.1 hstep
    obtain ⟨ring, hring⟩ := reaches_climb_iff.1 hrest
    exact ⟨top, front, e :: ring, hfront, namedPath_cons.2 ⟨he, hname, hring⟩,
      List.cons_ne_nil e ring⟩
  · rintro ⟨top, front, ring, hfront, hring, hne⟩
    obtain ⟨e, ring, rfl⟩ := List.exists_cons_of_ne_nil hne
    obtain ⟨he, hname, hrest⟩ := namedPath_cons.1 hring
    exact ⟨top, reaches_climb_iff.2 ⟨front, hfront⟩,
      .head' (leads_climb_iff.2 ⟨e, he, hname, rfl⟩) (reaches_climb_iff.2 ⟨ring, hrest⟩)⟩

/-! ## The walk -/

theorem mem_references (h : t.object r = .ok (some e)) :
    r ∈ t.entries.map TableEntry.reference :=
  eq_reference h ▸ List.mem_map_of_mem (mem_entries h)

/-- Names are not listed only if there is something wrong with an owner, or no room for them all. -/
theorem outerChain_eq_error (h : t.outerChain start room r = .error error) :
    Fails t.climb r error ∨ error = .outerChainLoops start.value.toInt ∧
      ∃ owners, (r :: owners).IsChain (Leads t.climb) ∧
        r :: owners ⊆ t.entries.map TableEntry.reference ∧ owners.length = room := by
  induction room generalizing r with
  | zero =>
    rw [outerChain] at h
    rcases except_bind_eq_error.1 h with hobject | ⟨found, hobject, h⟩
    · exact .inl ⟨r, .refl, (Stray.of_object hobject).climb_eq⟩
    · cases found with
      | none => cases h
      | some e =>
        cases h
        exact .inr ⟨rfl, [], .singleton r,
          List.cons_subset.2 ⟨mem_references hobject, List.nil_subset _⟩, rfl⟩
  | succ room ih =>
    rw [outerChain] at h
    rcases except_bind_eq_error.1 h with hobject | ⟨found, hobject, h⟩
    · exact .inl ⟨r, .refl, (Stray.of_object hobject).climb_eq⟩
    cases found with
    | none => cases h
    | some e =>
      rcases except_bind_eq_error.1 h with hname | ⟨name, hname, h⟩
      · refine .inl ⟨r, .refl, ?_⟩
        rw [climb_of_object hobject, hname]
        rfl
      have hstep : Leads t.climb r e.outer :=
        leads_climb_iff.2 ⟨e, hobject, inNames_iff.2 (name_eq_ok hname).1, rfl⟩
      rcases except_bind_eq_error.1 h with howners | ⟨_, -, h⟩
      · rcases ih howners with hfails | ⟨rfl, owners, hchain, hsub, hlength⟩
        · exact .inl (hfails.head hstep)
        · exact .inr ⟨rfl, e.outer :: owners, hchain.cons_cons hstep,
            List.cons_subset.2 ⟨mem_references hobject, hsub⟩, congrArg (· + 1) hlength⟩
      · cases h

/-- The full name of an object tells how the steps to its owners go on. -/
theorem reports_innerFullName (t : Tables) (r : ObjectRef) :
    Reports t.climb r (.outerChainLoops r.value.toInt) (t.innerFullName r) := by
  by_cases hr : r = .none
  · subst hr
    exact ⟨fun _ _ => ⟨.none, .refl, rfl⟩, nofun⟩
  constructor
  · intro s hs
    obtain ⟨path, hpath, hnames, -⟩ := (innerFullName_eq_ok hr).1 hs
    exact ends_climb_iff.2 ⟨path, hpath, fun e he => inNames_iff.2 (hnames e he)⟩
  · intro error herror
    rw [innerFullName, if_neg (fun h => hr (ObjectRef.isNone_iff.1 h))] at herror
    cases hchain : t.outerChain r (t.exports.length + t.imports.length + 1) r with
    | ok names =>
      rw [hchain] at herror
      cases herror
    | error _ =>
      rw [hchain] at herror
      cases herror
      refine (outerChain_eq_error hchain).imp_right ?_
      rintro ⟨rfl, owners, hsteps, hsub, hlength⟩
      refine ⟨rfl, loops_of_isChain hsteps (List.subset_of_cons_subset hsub) ?_⟩
      rw [hlength, List.length_map, length_entries]
      exact Nat.lt_succ_self _

/-- The full name in a package is that of the path, or the name None for the empty reference. -/
theorem innerFullName_eq_ok_iff {s : String} : t.innerFullName r = .ok s ↔
    ∃ path, t.NamedPath .none r path ∧
      s = if r = .none then noneName else dotted (t.pathNames path) := by
  by_cases hr : r = .none
  · subst hr
    simp only [if_true]
    exact ⟨fun h => ⟨[], .here, (Except.ok.inj h).symm⟩, fun ⟨_, _, h⟩ => h ▸ rfl⟩
  · simp only [innerFullName_eq_ok hr, if_neg hr, NamedPath, inNames_iff, and_assoc]

end Tables

namespace Remembering

/-- What a question about full names is answered after others. -/
def answerAfter {α : Type} (t : Tables) (earlier : List NameQuestion) (question : Remembering α) :
    Except Error α :=
  Prod.fst <$> question (.after t earlier)

/-- What the full name of an object is, whatever was asked before. The chain of its owners leads up
to nothing, and the name lists their names, root first; or it comes back to an object, which is told
with the reference that was asked for; or what is wrong is the first reference or name on the way
that lies outside its table. -/
theorem innerFullName_outcome (t : Tables) (earlier : List NameQuestion) (r : ObjectRef) :
    answerAfter t earlier (innerFullName t r) = answerAfter t [] (innerFullName t r) ∧
    (∀ s, answerAfter t earlier (innerFullName t r) = .ok s ↔ ∃ path, t.NamedPath .none r path ∧
      s = if r = .none then noneName else dotted (t.pathNames path)) ∧
    (answerAfter t earlier (innerFullName t r) = .error (.outerChainLoops r.value.toInt) ↔
      ∃ top front ring, t.NamedPath top r front ∧ t.NamedPath top top ring ∧ ring ≠ []) ∧
    (∀ table index length,
      answerAfter t earlier (innerFullName t r) = .error (.outOfRange table index length) ↔
        ∃ top path, t.NamedPath top r path ∧ t.Stray top (.outOfRange table index length)) ∧
    ((∃ s, answerAfter t earlier (innerFullName t r) = .ok s) ∨
      answerAfter t earlier (innerFullName t r) = .error (.outerChainLoops r.value.toInt) ∨
      ∃ table index length,
        answerAfter t earlier (innerFullName t r) = .error (.outOfRange table index length)) := by
  have hanswer : ∀ earlier, answerAfter t earlier (innerFullName t r) = t.innerFullName r :=
    fun earlier => (agrees_innerFullName t r).answer_eq _ (FullNameMemo.sound_after t earlier)
  have hreports := Tables.reports_innerFullName t r
  have hstray : ∀ {top error}, t.Stray top error →
      ∃ table index length, error = .outOfRange table index length := by
    rintro _ _ (_ | _ | _) <;> exact ⟨_, _, _, rfl⟩
  rw [hanswer, hanswer]
  refine ⟨rfl, fun _ => Tables.innerFullName_eq_ok_iff, ?_, fun table index length => ?_, ?_⟩
  · rw [hreports.error_iff, Tables.fails_climb_iff, ← Tables.loops_climb_iff]
    refine ⟨?_, fun hloops => .inr ⟨rfl, hloops⟩⟩
    rintro (⟨_, _, -, herror⟩ | ⟨-, hloops⟩)
    · obtain ⟨_, _, _, h⟩ := hstray herror
      cases h
    · exact hloops
  · rw [hreports.error_iff, Tables.fails_climb_iff]
    refine ⟨?_, .inl⟩
    rintro (hfails | ⟨h, -⟩)
    · exact hfails
    · cases h
  · cases hname : t.innerFullName r with
    | ok s => exact .inl ⟨s, rfl⟩
    | error error =>
      rcases hreports.stops error hname with hfails | ⟨rfl, -⟩
      · obtain ⟨_, _, -, herror⟩ := Tables.fails_climb_iff.1 hfails
        obtain ⟨table, index, length, rfl⟩ := hstray herror
        exact .inr (.inr ⟨table, index, length, rfl⟩)
      · exact .inr (.inl rfl)

/-- Tables with an import without a name, one that belongs to it, and one that owns itself. -/
def ringTables : Tables :=
  ⟨"Game", [⟨"Core", 0⟩], [⟨0, 0, .none, 7⟩, ⟨0, 0, ⟨-1⟩, 0⟩, ⟨0, 0, ⟨-3⟩, 0⟩], []⟩

/-- A stray and a ring, asked for after another question. -/
theorem innerFullName_outcome_ring :
    answerAfter ringTables [] (innerFullName ringTables ⟨-2⟩) = .error (.outOfRange .names 7 1) ∧
    answerAfter ringTables [.inner ⟨-2⟩] (innerFullName ringTables ⟨-3⟩) =
      .error (.outerChainLoops (-3)) := by
  obtain ⟨-, -, -, hstray, -⟩ := innerFullName_outcome ringTables [] ⟨-2⟩
  obtain ⟨-, -, hring, -⟩ := innerFullName_outcome ringTables [.inner ⟨-2⟩] ⟨-3⟩
  have hname : ringTables.InNames 0 := by decide
  have hnone : ¬ringTables.InNames 7 := by decide
  have hbelow : ringTables.NamedPath ⟨-1⟩ ⟨-2⟩ [.imported 1 ⟨0, 0, ⟨-1⟩, 0⟩] :=
    Tables.namedPath_cons.2 ⟨rfl, hname, .here⟩
  have hself : ringTables.NamedPath ⟨-3⟩ ⟨-3⟩ [.imported 2 ⟨0, 0, ⟨-3⟩, 0⟩] :=
    Tables.namedPath_cons.2 ⟨rfl, hname, .here⟩
  have hstop : ringTables.Stray ⟨-1⟩ (.outOfRange .names 7 1) :=
    .named (e := .imported 0 ⟨0, 0, .none, 7⟩) rfl hnone
  exact ⟨(hstray _ _ _).2 ⟨_, _, hbelow, hstop⟩,
    hring.2 ⟨_, [], _, .here, hself, List.cons_ne_nil _ _⟩⟩

end Remembering

end UnrealPackage
