import Mathlib.Algebra.GroupWithZero.Nat
import Mathlib.Data.List.Induction
import Mathlib.Data.List.Nodup
import Mathlib.Data.List.Perm.Subperm
import UnrealPackage.Library.Basic
import UnrealPackage.Proofs.Tables.FullNameMemo
/-!
# Counting exports

A source tells how many exports its packages have together. `PackageSource.Counted` says that it
counts all of them, as shelves and file trees do (`ImageShelf.counted_source`,
`FileTree.counted_source`).

A `Library.Holds` an export of a package that can be found in its source. References lead from
exports that it holds to others, so there are no more of them than the source tells
(`Library.length_le_exportCount`).
-/

namespace UnrealPackage

/-! ## Sources that count -/

/-- Whether the packages that can be found have no more exports than the source tells. -/
def PackageSource.Counted (s : PackageSource) : Prop :=
  ∃ packages : List Package, (∀ name p, s.find name = .ok (some p) → p ∈ packages) ∧
    (packages.map fun p => p.tables.exports.length).sum ≤ s.exportCount

/-- The packages that could be read. -/
def readable (packages : List (Except Error Package)) : List Package :=
  packages.filterMap Except.toOption

/-- The exports of some packages are those of the readable ones together. -/
theorem countExports_eq (packages : List (Except Error Package)) :
    countExports packages = ((readable packages).map fun p => p.tables.exports.length).sum := by
  induction packages using List.reverseRecOn with
  | nil => rfl
  | append_singleton packages found ih =>
    rw [countExports, List.foldl_append, readable, List.filterMap_append, List.map_append,
      List.sum_append]
    cases found with
    | error e => exact ih
    | ok p => exact congrArg (· + p.tables.exports.length) ih

theorem mem_readable {packages : List (Except Error Package)} {p : Package}
    (h : .ok p ∈ packages) : p ∈ readable packages :=
  List.mem_filterMap.2 ⟨_, h, rfl⟩

/-- A package that is looked up in a list is one of those that could be read. -/
theorem mem_readable_of_lookup {α : Type} [BEq α] [LawfulBEq α]
    {loaded : List (α × Except Error Package)} {key : α} {p : Package}
    (h : (match loaded.lookup key with
      | some found => some <$> found
      | none => pure none) = Except.ok (some p)) : p ∈ readable (loaded.map Prod.snd) := by
  split at h
  · next found hfound =>
    cases found with
    | error _ => cases h
    | ok p' =>
      cases h
      exact mem_readable (List.mem_map_of_mem (mem_of_lookup hfound))
  · cases h

theorem ImageShelf.counted_source (s : ImageShelf) (options : PackageOptions) :
    (s.source options).Counted :=
  ⟨_, fun _ _ h => mem_readable_of_lookup h, Nat.le_of_eq (countExports_eq _).symm⟩

/-- A directory tells of no fewer exports than the packages in it have. -/
theorem FileTree.counted_source (t : FileTree) (directory extension : String)
    (options : PackageOptions) : (t.source directory extension options).Counted := by
  refine ⟨_, fun name p h => ?_, Nat.le_of_eq (countExports_eq _).symm⟩
  obtain ⟨place, -, h⟩ := except_bind_eq_ok.1 h
  cases place with
  | none => cases h
  | some place => exact mem_readable_of_lookup h

/-! ## What a library holds -/

namespace Library

variable {l : Library} {x y : Located}

/-- Whether the package of an export can be found. -/
def Found (l : Library) (x : Located) : Prop :=
  ∃ name, l.source.find name = .ok (some x.package)

/-- Whether the export is there, in a package that can be found. -/
structure Holds (l : Library) (x : Located) : Prop where
  found : l.Found x
  index_lt : x.index < x.package.tables.exports.length

/-- A package of the library is one that its source finds. -/
theorem package_eq_ok {name : String} {p : Package} :
    l.package name = .ok p ↔ l.source.find name = .ok (some p) := by
  rw [package]
  constructor
  · intro h
    obtain ⟨found, hfound, h⟩ := except_bind_eq_ok.1 h
    cases found with
    | none => cases h
    | some p' =>
      cases h
      exact hfound
  · intro h
    rw [h]
    rfl

/-- What is located by its full name lies in a package of the library. -/
theorem found_of_locate {fullName : String} (h : l.locate fullName = .ok x) : l.Found x := by
  obtain ⟨p, hp, h⟩ := except_bind_eq_ok.1 h
  split at h
  · cases h
    exact ⟨_, package_eq_ok.1 hp⟩
  · cases h

/-- References lead to packages of the library. -/
theorem Found.resolve {r : ObjectRef} (hx : l.Found x) (h : l.resolve x r = .ok (some y)) :
    l.Found y := by
  rw [Library.resolve] at h
  split at h
  · cases h
  · cases h
    exact hx
  · obtain ⟨fullName, -, h⟩ := except_bind_eq_ok.1 h
    cases hy : l.locate fullName with
    | error _ =>
      rw [hy] at h
      cases h
    | ok y' =>
      rw [hy] at h
      cases h
      exact found_of_locate hy

/-- Only an export that is in the table can be read. -/
theorem index_lt_of_decode {schema : SchemaResolver} {record : FieldRecord}
    (h : x.decode schema = .ok record) : x.index < x.package.tables.exports.length := by
  obtain ⟨data, hdata, -⟩ := except_bind_eq_ok.1 h
  obtain ⟨entry, hentry, -⟩ := except_bind_eq_ok.1 hdata
  rw [Tables.exportAt] at hentry
  split at hentry
  · next hfound => exact (List.getElem?_eq_some_iff.1 hfound).1
  · cases hentry

/-- All exports of some packages. -/
def exportsOf (packages : List Package) : List Located :=
  packages.flatMap fun p => (List.range p.tables.exports.length).map (Located.mk p)

theorem length_exportsOf (packages : List Package) :
    (exportsOf packages).length = (packages.map fun p => p.tables.exports.length).sum := by
  simp [exportsOf, List.length_flatMap]

theorem mem_exportsOf {packages : List Package} (hpackage : x.package ∈ packages)
    (hindex : x.index < x.package.tables.exports.length) : x ∈ exportsOf packages :=
  List.mem_flatMap.2 ⟨x.package, hpackage,
    List.mem_map.2 ⟨x.index, List.mem_range.2 hindex, rfl⟩⟩

/-- Different exports that the library holds are no more than its source tells. -/
theorem length_le_exportCount (hcount : l.source.Counted) {xs : List Located} (hxs : xs.Nodup)
    (hheld : ∀ x ∈ xs, l.Holds x) : xs.length ≤ l.source.exportCount := by
  obtain ⟨packages, hall, hsum⟩ := hcount
  have hsubset : xs ⊆ exportsOf packages := by
    intro x hx
    obtain ⟨⟨name, hfound⟩, hindex⟩ := hheld x hx
    exact mem_exportsOf (hall name _ hfound) hindex
  have hlength := hxs.length_le_of_subset hsubset
  rw [length_exportsOf] at hlength
  exact Nat.le_trans hlength hsum

/-- Different exports of one package are no more than its table has. -/
theorem length_le_exports {p : Package} {xs : List Located} (hxs : xs.Nodup)
    (hown : ∀ x ∈ xs, x.package = p ∧ x.index < p.tables.exports.length) :
    xs.length ≤ p.tables.exports.length := by
  have hsubset : xs ⊆ exportsOf [p] := by
    intro x hx
    obtain ⟨rfl, hindex⟩ := hown x hx
    exact mem_exportsOf (List.mem_singleton_self _) hindex
  have hlength := hxs.length_le_of_subset hsubset
  rw [length_exportsOf, List.map_singleton, List.sum_singleton] at hlength
  exact hlength

end Library

end UnrealPackage
