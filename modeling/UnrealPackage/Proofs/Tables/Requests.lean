import UnrealPackage.Proofs.Tables.Rename
/-!
# Imports that are asked for

`Tables.Provides t imports r`: the import that `r` asks for is there with all its packages, so that
asking for it again adds nothing. Each import that was asked for is provided afterwards, whatever
was asked for besides (`provides_of_requestImports`), since imports are only added behind others. So
a second request finds all that the first one has left (`requestImports_of_provides`).

What is provided has the name and the class that were asked for, and so have the packages around it.
-/

namespace UnrealPackage

/-- An item that was found or added is found where it is as long as others follow. -/
theorem findOrAdd_append {α : Type} [BEq α] [LawfulBEq α] (items more : List α) (item : α) :
    findOrAdd ((findOrAdd items item).1 ++ more) item =
      ((findOrAdd items item).1 ++ more, (findOrAdd items item).2) := by
  rw [findOrAdd, findOrAdd]
  cases hfind : items.findIdx? (· == item) with
  | none =>
    dsimp only
    rw [List.findIdx?_append, List.findIdx?_append, hfind, List.findIdx?_singleton, if_pos BEq.rfl]
    simp
  | some i =>
    dsimp only
    rw [List.findIdx?_append, hfind]
    rfl

namespace Tables

variable {t : Tables} {imports after : List ImportEntry} {r : ImportRequest} {name type : String}

/-- The packages of a path are found where they were added as long as others follow. -/
theorem nestImports_again (package : NameIndex × NameIndex) (imports more : List ImportEntry)
    (outer : ObjectRef) (path : List NameIndex) :
    nestImports package ((nestImports package imports outer path).1 ++ more) outer path =
      ((nestImports package imports outer path).1 ++ more,
        (nestImports package imports outer path).2) := by
  induction path generalizing imports outer with
  | nil => rfl
  | cons part path ih =>
    simp only [nestImports]
    obtain ⟨added, hadded⟩ := exists_nestImports_append package
      (findOrAdd imports ⟨package.1, package.2, outer, part⟩).1
      (.ofImport (findOrAdd imports ⟨package.1, package.2, outer, part⟩).2) path
    have hfound := findOrAdd_append imports (added ++ more) ⟨package.1, package.2, outer, part⟩
    rw [← List.append_assoc, ← hadded] at hfound
    rw [hfound]
    exact ih _ _

/-! ## Imports that are there -/

/-- The import is there with its packages. -/
def Provides (t : Tables) (imports : List ImportEntry) (r : ImportRequest) : Prop :=
  ∃ outer e, t.packageImports imports (segments r.name).dropLast = .ok (imports, outer) ∧
    t.importEntry r.type outer ((segments r.name).getLastD "") = .ok e ∧ e ∈ imports

/-- Packages that were added are found again as long as others follow. -/
theorem packageImports_again {nested : List ImportEntry × ObjectRef} {path : List String}
    (h : t.packageImports imports path = .ok nested) (more : List ImportEntry) :
    t.packageImports (nested.1 ++ more) path = .ok (nested.1 ++ more, nested.2) := by
  obtain ⟨core, package, indices, hcore, hpackage, hindices, rfl⟩ := packageImports_eq_ok.1 h
  exact packageImports_eq_ok.2 ⟨core, package, indices, hcore, hpackage, hindices,
    (nestImports_again (core, package) imports more .none indices).symm⟩

/-- What is provided depends on the names and the imports alone. -/
theorem Provides.congr {t' : Tables} (h : t.Provides imports r) (hnames : t'.names = t.names) :
    t'.Provides imports r := by
  have hindex : t'.nameIndex = t.nameIndex :=
    funext fun n => by rw [nameIndex, nameIndex, nameIndex?, nameIndex?, hnames]
  unfold Provides packageImports importEntry at h ⊢
  rwa [hindex]

theorem Provides.mono (h : t.Provides imports r) (more : List ImportEntry) :
    t.Provides (imports ++ more) r := by
  obtain ⟨outer, e, hpackages, he, hmem⟩ := h
  exact ⟨outer, e, packageImports_again hpackages more, he, List.mem_append_left _ hmem⟩

/-- One import that is asked for is added where it is missing, with its packages. -/
theorem requestImports_cons {force : Bool} {wanted : List ImportRequest}
    (h : t.requestImports force imports (r :: wanted) = .ok after) :
    ∃ more, t.Provides (imports ++ more) r ∧
      t.requestImports force (imports ++ more) wanted = .ok after := by
  obtain ⟨⟨nested, outer⟩, hpackages, h⟩ := except_bind_eq_ok.1 h
  obtain ⟨e, he, h⟩ := except_bind_eq_ok.1 h
  obtain ⟨core, package, indices, -, -, -, hnested⟩ := packageImports_eq_ok.1 hpackages
  obtain ⟨added, hadded⟩ := exists_nestImports_append (core, package) imports .none indices
  rw [← hnested] at hadded
  obtain ⟨last, hlast, hmem⟩ : ∃ last,
      (if force || !nested.contains e then nested ++ [e] else nested) = nested ++ last ∧
        e ∈ nested ++ last := by
    by_cases hnew : (force || !nested.contains e) = true
    · exact ⟨[e], if_pos hnew, List.mem_append_right _ List.mem_cons_self⟩
    · refine ⟨[], (if_neg hnew).trans (List.append_nil _).symm, List.mem_append_left _ ?_⟩
      rw [Bool.not_eq_true, Bool.or_eq_false_iff, Bool.not_eq_false'] at hnew
      exact List.contains_iff_mem.1 hnew.2
  have hprovides : t.Provides (nested ++ last) r :=
    ⟨outer, e, packageImports_again hpackages last, he, hmem⟩
  dsimp only at hadded h
  rw [hlast] at h
  rw [hadded, List.append_assoc] at hprovides h
  exact ⟨added ++ last, hprovides, h⟩

/-- Imports are added behind those there are. -/
theorem exists_requestImports_append {force : Bool} {wanted : List ImportRequest}
    (h : t.requestImports force imports wanted = .ok after) :
    ∃ more, after = imports ++ more := by
  induction wanted generalizing imports with
  | nil =>
    cases h
    exact ⟨[], (List.append_nil _).symm⟩
  | cons r wanted ih =>
    obtain ⟨added, -, h⟩ := requestImports_cons h
    obtain ⟨more, rfl⟩ := ih h
    exact ⟨added ++ more, List.append_assoc ..⟩

theorem grows_learn (t : Tables) (names : List String) : t.Grows (t.learn names) := by
  obtain ⟨more, hmore⟩ := t.extends_learn names
  rw [hmore]
  exact .appendNames t more

/-- Tables grow when the names that some imports need are added to them, and the imports. -/
theorem grows_requestImports {force : Bool} {names : List String} {wanted : List ImportRequest}
    (h : (t.learn names).requestImports force t.imports wanted = .ok after) :
    t.Grows { t.learn names with imports := after } := by
  obtain ⟨more, rfl⟩ := exists_requestImports_append h
  exact (t.grows_learn names).trans (Grows.appendImports _ more)

/-- All imports that were asked for are there. -/
theorem provides_of_requestImports {force : Bool} {wanted : List ImportRequest}
    (h : t.requestImports force imports wanted = .ok after) :
    ∀ r ∈ wanted, t.Provides after r := by
  induction wanted generalizing imports with
  | nil => exact nofun
  | cons r wanted ih =>
    obtain ⟨added, hprovides, h⟩ := requestImports_cons h
    obtain ⟨more, rfl⟩ := exists_requestImports_append h
    exact List.forall_mem_cons.2 ⟨hprovides.mono more, ih h⟩

/-- Imports that are there are not added again. -/
theorem requestImports_of_provides {wanted : List ImportRequest}
    (h : ∀ r ∈ wanted, t.Provides imports r) :
    t.requestImports false imports wanted = .ok imports := by
  induction wanted with
  | nil => rfl
  | cons r wanted ih =>
    obtain ⟨⟨outer, e, hpackages, he, hmem⟩, hrest⟩ := List.forall_mem_cons.1 h
    refine except_bind_eq_ok.2 ⟨_, hpackages, except_bind_eq_ok.2 ⟨e, he, ?_⟩⟩
    have hthere : imports.contains e = true := List.contains_iff_mem.2 hmem
    dsimp only
    rw [hthere]
    exact ih hrest

/-! ## What they are called -/

/-- An import has a full name and a class, both up to case. -/
def ImportsAs (t : Tables) (name type : String) : Prop :=
  ∃ i s c, t.importFullName i = .ok s ∧ sameName s name = true ∧
    t.importClassFullName i = .ok c ∧ sameName c type = true

/-- An import of a name is found by it. -/
theorem ImportsAs.exists_findImport? (h : t.ImportsAs name type) :
    ∃ i, t.findImport? name = some i := by
  obtain ⟨i, s, -, hs, hsame, -⟩ := h
  obtain ⟨x, hx⟩ := exists_of_importFullName hs
  rw [← Option.isSome_iff_exists, findImport?, List.find?_isSome]
  refine ⟨i, List.mem_range.2 (List.getElem?_eq_some_iff.1 hx).1, ?_⟩
  rw [hs]
  exact hsame

/-- Where an import stands that is provided: on the path of its name, all packages of which are
there. -/
theorem Provides.exists_path (h : t.Provides t.imports r) : ∃ w : t.ImportPath r.name,
    (∀ n, (w.nest n).1 = t.imports) ∧ ∃ (i : Nat) (e : ImportEntry), t.imports[i]? = some e ∧
      e.outer = w.nested.2 ∧ e.objectName = w.last ∧
      t.nameIndex r.type.package = .ok e.classPackage ∧
      t.nameIndex r.type.name = .ok e.className := by
  obtain ⟨outer, e, hpackages, he, hmem⟩ := h
  obtain ⟨core, package, path, hcore, hpackage, hpath, -⟩ := packageImports_eq_ok.1 hpackages
  obtain ⟨classPackage, hclassPackage, he⟩ := except_bind_eq_ok.1 he
  obtain ⟨className, hclassName, he⟩ := except_bind_eq_ok.1 he
  obtain ⟨last, hlast, he⟩ := except_bind_eq_ok.1 he
  cases he
  let w : t.ImportPath r.name := ⟨⟨path, last, hpath, hlast⟩, core, package, hcore, hpackage⟩
  have hnested : w.nested = (t.imports, outer) :=
    Except.ok.inj (w.packageImports_eq.symm.trans hpackages)
  obtain ⟨i, hi⟩ := List.getElem?_of_mem hmem
  refine ⟨w, fun n => ?_, i, _, hi, by rw [hnested], rfl, hclassPackage, hclassName⟩
  -- the imports with some of the packages lie between those without any and those with all
  obtain ⟨added, hadded⟩ := exists_nestImports_append (core, package) t.imports .none (path.take n)
  obtain ⟨more, hmore⟩ := w.exists_nested_append n
  have hlength := congrArg List.length hmore
  rw [hnested, ImportPath.nest, hadded, List.length_append, List.length_append] at hlength
  dsimp only at hlength
  rw [ImportPath.nest, hadded, List.eq_nil_of_length_eq_zero (l := added) (by omega),
    List.append_nil]

/-- An import that is provided has the name and the class that were asked for. -/
theorem Provides.importsAs (h : t.Provides t.imports r) (hn : t.names.length < 0x80000000)
    (hlength : t.imports.length ≤ 0x80000000) :
    t.ImportsAs r.name (dotted [r.type.package, r.type.name]) := by
  obtain ⟨w, hnest, i, e, hi, houter, hlast, hclass⟩ := h.exists_path
  have hlt := (List.getElem?_eq_some_iff.1 hi).1
  obtain ⟨way, hway, hnames, -⟩ := w.exists_way ((hnest _).symm ▸ hlength) w.path.length
  rw [hnest, ← ImportPath.nested, ← houter] at hway
  obtain ⟨s, hs, hsame⟩ := importFullName_of_path hn (by omega) hi w.segments_eq
    (.owned (object_ofImport (by omega) hi) hway) (by
      rw [List.map_cons, hnames, List.take_length, List.reverse_concat, ← hlast]
      rfl)
  obtain ⟨c, hc, hsame'⟩ := importClassFullName_of_nameIndex hn hi hclass.1 hclass.2
  rw [dotted_segments] at hsame
  exact ⟨i, s, c, hs, hsame, hc, hsame'⟩

/-- The packages around an import that is provided are imports, too. -/
theorem Provides.importsAs_package (h : t.Provides t.imports r) (hn : t.names.length < 0x80000000)
    (hlength : t.imports.length ≤ 0x80000000) {n : Nat} (hpos : 0 < n)
    (hlt : n < (segments r.name).length) :
    t.ImportsAs (dotted ((segments r.name).take n)) "Core.Package" := by
  obtain ⟨w, hnest, -⟩ := h.exists_path
  have hle : n ≤ w.path.length := by
    rw [← w.length_path] at hlt
    exact Nat.le_of_lt_succ hlt
  obtain ⟨i, x, hleads, hi, hcore, hpackage⟩ := w.getElem?_nest hpos hle
  obtain ⟨way, hway, hnames, -⟩ := w.exists_way ((hnest _).symm ▸ hlength) n
  rw [hnest] at hi hway
  rw [hleads] at hway
  have hlt := (List.getElem?_eq_some_iff.1 hi).1
  obtain ⟨s, hs, hsame⟩ := importFullName_of_path hn (by omega) hi (w.take_eq hle) hway hnames
  obtain ⟨c, hc, hclass⟩ :=
    importClassFullName_package hn hi (hcore ▸ w.core_eq) (hpackage ▸ w.package_eq)
  exact ⟨i, s, c, hs, hsame, hc, hclass⟩

end Tables

end UnrealPackage
