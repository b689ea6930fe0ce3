import UnrealPackage.Library.Queries
import UnrealPackage.Proofs.Library.Fields
import UnrealPackage.Proofs.Library.Memo
import UnrealPackage.Proofs.Tables.Lookup
/-!
# Objects by their full names

A library is asked by full names, and so are the supers of a class when it is asked what the class
derives from: `isSubclass` takes the name of each super and looks it up again, where the fields of a
struct are collected along references. `isSubclass_superChain` says that both meet the same levels
as long as each of them is the first export that its full name fits (`Located.Leading`).

Where an export is called inside its package what another one is called in full, the full name leads
to the wrong one of them (`fullName_namesake`), and a class does not derive from what its references
lead to (`isSubclass_namesake`).
-/

namespace UnrealPackage

/-- Whether the export is the first one in its package that its full name fits. -/
structure Located.Leading (x : Located) : Prop where
  plain : '.' ∉ x.package.tables.package.toList
  first : ∀ name, x.fullName = .ok name → ∀ k < x.index,
    ¬x.package.tables.HasName name k ∧ ¬x.package.tables.HasInnerName name k

/-- Whether one of some objects is called `name`, if their full names are asked for one after the
other. -/
def Located.anyCalled (name : String) : List Located → Except Error Bool
  | [] => pure false
  | x :: xs => do
    let s ← x.fullName
    if sameName s name then pure true else anyCalled name xs

/-- Whether one of some exports is called by a name is told by their full names. -/
theorem Located.anyCalled_of_names {name : String} {xs : List Located} {names : List String}
    (h : xs.mapM Located.fullName = .ok names) :
    anyCalled name xs = .ok (names.any (sameName · name)) := by
  induction xs generalizing names with
  | nil =>
    cases h
    rfl
  | cons x xs ih =>
    rw [List.mapM_cons] at h
    obtain ⟨s, hs, h⟩ := except_bind_eq_ok.1 h
    obtain ⟨rest, hrest, h⟩ := except_bind_eq_ok.1 h
    cases h
    rw [anyCalled, hs, except_ok_bind, List.any_cons, ih hrest]
    cases sameName s name <;> rfl

/-! ## Exports by full name -/

theorem Library.locate_of_package {l : Library} {name : String} {p : Package} {j : Nat}
    (hp : l.package (firstSegment name) = .ok p) (hj : p.tables.findExport? name = some j) :
    l.locate name = .ok ⟨p, j⟩ := by
  rw [locate, hp, except_ok_bind, hj]
  rfl

/-- What the full name of an export leads to, in any case. It is an export of this full name, or one
that is called so inside its package. It is one of this full name exactly if none that is called so
stands in front of all of these, and the export itself exactly if the name fits none in front of
it. The field of the name is read at this export in every library that has the package under its
name. -/
theorem findExport?_fullName {t : Tables} (hdot : '.' ∉ t.package.toList) {i : Nat}
    {s name : String} (hi : t.exportFullName i = .ok s) (hname : sameName name s = true) :
    ∃ j, t.findExport? name = some j ∧ j ≤ i ∧ (t.HasName s j ∨ t.HasInnerName s j) ∧
      (t.HasName s j ↔ ∀ k, t.HasInnerName s k → ∃ m < k, t.HasName s m) ∧
      (j = i ↔ ∀ k < i, ¬t.HasName s k ∧ ¬t.HasInnerName s k) ∧
      ∀ (l : Library) (p : Package), l.package (firstSegment name) = .ok p → p.tables = t →
        l.field name = l.recordAt ⟨p, j⟩ := by
  obtain ⟨j, hj, hle, hbears, hfull, hself⟩ :=
    Tables.findExport?_of_hasName hdot ⟨s, hi, sameName_iff.2 rfl⟩
  rw [← t.findExport?_congr (sameName_iff.1 hname)] at hj
  refine ⟨j, hj, hle, hbears, hfull, hself, ?_⟩
  rintro l p hp rfl
  rw [Library.field, Access.field]
  dsimp only [Library.access_locate, Library.access_record]
  rw [Library.locate_of_package hp hj, except_ok_bind]

namespace Library

/-- A package with a class of its own name, which owns a class `A`. There is another class `A`
without an owner, which derives from `Root`, and from it derives `C`. -/
def namesakePackage : Package where
  image := classPayload 0 0 ++ classPayload 0 0 ++ classPayload 4 0 ++ classPayload 0 0 ++
    classPayload 3 0
  header := ⟨0, 0, 0, ⟨0, 0⟩, ⟨0, 0⟩, ⟨0, 0⟩, ⟨0, 0, 0, 0⟩, []⟩
  tables := ⟨"P", [⟨"None", 0⟩, ⟨"P", 0⟩, ⟨"A", 0⟩, ⟨"Root", 0⟩, ⟨"C", 0⟩], [],
    [⟨⟨0⟩, ⟨0⟩, ⟨0⟩, 1, 0, 65, 0⟩, ⟨⟨0⟩, ⟨0⟩, ⟨1⟩, 2, 0, 65, 65⟩, ⟨⟨0⟩, ⟨4⟩, ⟨0⟩, 2, 0, 65, 130⟩,
      ⟨⟨0⟩, ⟨0⟩, ⟨0⟩, 3, 0, 65, 195⟩, ⟨⟨0⟩, ⟨3⟩, ⟨0⟩, 4, 0, 65, 260⟩]⟩
  options := {}

/-- A library with this package alone. -/
def namesakeLibrary : Library where
  source := ⟨fun name => .ok (if sameName name "P" then some namesakePackage else none), 5⟩
  nativePackages := []

/-- A class is found by its full name in another case. -/
theorem findExport?_fullName_namesake : namesakePackage.tables.findExport? "p.c" = some 4 ∧
    namesakeLibrary.field "p.c" = namesakeLibrary.recordAt ⟨namesakePackage, 4⟩ := by
  have hname : sameName "p.c" "P.C" = true := by decide
  obtain ⟨j, hj, -, -, -, hself, hfield⟩ :=
    findExport?_fullName (t := namesakePackage.tables) (i := 4) (by decide) rfl hname
  obtain rfl := hself.2 (by decide +kernel)
  exact ⟨hj, hfield namesakeLibrary namesakePackage rfl rfl⟩

/-- The only export with the full name `P.A` is not found by it, but one that is called so inside
the package. -/
theorem fullName_namesake : '.' ∉ namesakePackage.tables.package.toList ∧
    (∀ e ∈ namesakePackage.tables.names, '.' ∉ e.name.toList) ∧
    namesakePackage.tables.exportFullName 2 = .ok "P.A" ∧
    (∀ k ≠ 2, ¬namesakePackage.tables.HasName "P.A" k) ∧
    namesakePackage.tables.findExport? "P.A" = some 1 ∧
    namesakePackage.tables.exportFullName 1 = .ok "P.P.A" ∧
    (namesakeLibrary.field "P.A").map FieldRecord.index = .ok 1 := by
  refine ⟨by decide, by decide, rfl, fun k hk hname => ?_, rfl, rfl, rfl⟩
  have hnone : ∀ k < 5, k ≠ 2 → ¬namesakePackage.tables.HasName "P.A" k := by decide +kernel
  exact hnone k hname.index_lt hk hname

variable {l : Library} {x y : Located} {s name : String} {levels : List Located}

theorem Found.package_eq (hsource : l.source.ByName) (h : l.Found x) :
    l.package x.package.tables.package = .ok x.package := by
  obtain ⟨name, hfind⟩ := h
  rw [package_eq_ok, hsource.find_congr (hsource.named hfind), hfind]

/-- An export that its full name fits first is located by it. -/
theorem locate_fullName (hsource : l.source.ByName) (hx : l.Found x) (hlead : x.Leading)
    (hs : x.fullName = .ok s) : l.locate s = .ok x := by
  have hname : x.package.tables.HasName s x.index := ⟨s, hs, sameName_iff.2 rfl⟩
  have hindex : x.package.tables.findExport? s = some x.index :=
    (Tables.findExport?_eq_self_iff hlead.plain hname).2 (hlead.first s hs)
  obtain ⟨-, inner, -, rfl⟩ := Tables.exportFullName_eq_ok.1 hs
  refine locate_of_package ?_ hindex
  rw [firstSegment_dotted hlead.plain, hx.package_eq hsource]

/-! ## Supers by name -/

/-- The name of the super is that of the level that the reference leads to. -/
theorem superClass_eq (hx : l.locate s = .ok x) {next : Option Located}
    (h : l.superOf x = .ok next) : l.superClass s = next.mapM Located.fullName := by
  obtain ⟨r, hr, hnext⟩ := except_bind_eq_ok.1 h
  rw [superClass, Access.superClass]
  dsimp only [access_locate, access_record, access_resolve, access_fullName]
  rw [hx, except_ok_bind, hr, except_ok_bind, hnext, except_ok_bind]
  cases next <;> rfl

/-- Going from name to name meets the same levels as going from reference to reference. -/
theorem descends_walk (hsource : l.source.ByName) {start : String} {room : Nat}
    (h : Walk l.superOf (some x) levels) (hroom : levels.length ≤ room) (hx : l.Found x)
    (hlead : ∀ y ∈ levels, y.Leading) (hs : x.fullName = .ok s) :
    l.plain.descends start name room s = Located.anyCalled name levels := by
  induction room generalizing x levels s with
  | zero =>
    cases h with
    | step _ _ => exact absurd hroom (Nat.not_succ_le_zero _)
  | succ room ih =>
    cases h with
    | @step _ next rest hstep hrest =>
      have hlocate := locate_fullName hsource hx (hlead x List.mem_cons_self) hs
      have hsuper : l.plain.superClass s = next.mapM Located.fullName := superClass_eq hlocate hstep
      rw [Access.descends, Located.anyCalled, hs, except_ok_bind, hsuper]
      split
      · rfl
      · cases next with
        | none =>
          cases hrest
          rfl
        | some parent =>
          have hparent : l.Found parent := hx.super hstep
          cases hname : parent.fullName with
          | error e =>
            cases hrest with
            | step _ _ =>
              rw [Located.anyCalled, hname]
              simp only [Option.mapM_some, hname]
              rfl
          | ok s' =>
            have hrest' := ih hrest (Nat.le_of_succ_le_succ hroom) hparent
              (fun y hy => hlead y (List.mem_cons_of_mem _ hy)) hname
            rw [← hrest']
            simp only [Option.mapM_some, hname]
            rfl

/-- What a class derives from, asked by names. If the supers of a class end within the limit, and
each level is the first export that its full name fits, then the super of each level by name is the
next level, and the class is called or derives from whatever one of the levels is called, and from
nothing else. Levels without a full name give their own error when it comes to them. -/
theorem isSubclass_superChain (hsource : l.source.ByName) (hx : l.Found x)
    (hwalk : Walk l.superOf (some x) levels) (hlimit : levels.length ≤ superLimit)
    (hlead : ∀ y ∈ levels, y.Leading) (hs : x.fullName = .ok s) :
    (∀ name, l.isSubclass s name = Located.anyCalled name levels) ∧
    (∀ names, levels.mapM Located.fullName = .ok names →
      ∀ name, l.isSubclass s name = .ok (names.any (sameName · name))) ∧
    ∀ i y s', levels[i]? = some y → y.fullName = .ok s' →
      l.superClass s' = levels[i + 1]?.mapM Located.fullName := by
  have hcalled : ∀ name, l.isSubclass s name = Located.anyCalled name levels :=
    fun name => descends_walk hsource hwalk hlimit hx hlead hs
  have hfound : ∀ y ∈ levels, l.Found y :=
    hwalk.forall_mem (fun y hy => Option.some.inj hy ▸ hx) fun _ _ => Found.super
  refine ⟨hcalled, fun names hnames name => ?_, fun i y s' hy hs' => ?_⟩
  · rw [hcalled, Located.anyCalled_of_names hnames]
  · have hmem := List.mem_of_getElem? hy
    exact superClass_eq (locate_fullName hsource (hfound y hmem) (hlead y hmem) hs')
      (hwalk.step_getElem? hy)

/-- The packages of the library are found by name. -/
theorem byName_thingLibrary : thingLibrary.source.ByName := by
  refine ⟨fun {name name'} h => ?_, fun {name p} h => ?_⟩
  · have hsame : ∀ c, sameName name c = sameName name' c := fun c => by rw [sameName, sameName, h]
    rw [thingLibrary]
    dsimp only
    rw [hsame, hsame]
  · have hfound : (if sameName name "P" then some thingPackage
        else if sameName name "Q" then some basePackage else none) = some p := Except.ok.inj h
    split at hfound
    · next hname =>
      cases hfound
      exact (sameName_iff.1 hname).symm
    · split at hfound
      · next hname =>
        cases hfound
        exact (sameName_iff.1 hname).symm
      · cases hfound

/-- A class of one package derives from a class of another one. -/
theorem isSubclass_superChain_thing :
    thingLibrary.isSubclass "P.Thing" "q.BASE" = .ok true ∧
    thingLibrary.isSubclass "P.Thing" "Q.Thing" = .ok false ∧
    thingLibrary.superClass "P.Thing" = .ok (some "Q.Base") := by
  have hwalk : Walk thingLibrary.superOf (some ⟨thingPackage, 0⟩)
      [⟨thingPackage, 0⟩, ⟨basePackage, 0⟩] := .step rfl (.step rfl .done)
  have hlead : ∀ y ∈ [(⟨thingPackage, 0⟩ : Located), ⟨basePackage, 0⟩], y.Leading := by
    simp only [List.forall_mem_cons]
    exact ⟨⟨by decide, nofun⟩, ⟨by decide, nofun⟩, nofun⟩
  obtain ⟨-, hnamed, hsuper⟩ := isSubclass_superChain (x := ⟨thingPackage, 0⟩) byName_thingLibrary
    ⟨"P", rfl⟩ hwalk (by decide) hlead rfl
  exact ⟨hnamed ["P.Thing", "Q.Base"] rfl "q.BASE", hnamed ["P.Thing", "Q.Base"] rfl "Q.Thing",
    hsuper 0 _ "P.Thing" rfl rfl⟩

/-- Along the references `C` derives from `A` and `A` from `Root`. But the name of `A` leads to the
other `A`, which derives from nothing. -/
theorem isSubclass_namesake :
    Walk namesakeLibrary.superOf (some ⟨namesakePackage, 4⟩)
      [⟨namesakePackage, 4⟩, ⟨namesakePackage, 2⟩, ⟨namesakePackage, 3⟩] ∧
    [⟨namesakePackage, 4⟩, ⟨namesakePackage, 2⟩, ⟨namesakePackage, 3⟩].mapM Located.fullName =
      .ok ["P.C", "P.A", "P.Root"] ∧
    namesakeLibrary.isSubclass "P.C" "P.Root" = .ok false ∧
    namesakeLibrary.superClass "P.A" = .ok none :=
  ⟨.step rfl (.step rfl (.step rfl .done)), rfl, rfl, rfl⟩

end Library

end UnrealPackage
