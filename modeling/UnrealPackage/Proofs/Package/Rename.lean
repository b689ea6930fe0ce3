import UnrealPackage.Proofs.Package.Draft
import UnrealPackage.Proofs.Package.Ready
import UnrealPackage.Proofs.Package.Run
/-!
# Renaming an import of a package

`renameImport_exact` says what a renaming does to a package whose imports are all rooted. As long as
the new names and the image stay within the limits of the format, it succeeds, and touches nothing
but the import. The import bears the new name and the imports are all
rooted again exactly if the import is not itself one of the packages on the path of the new name.

Such an import is not put aside while its new owners are looked up. So a package that is to be moved
into a new package of its own old name is found there itself, and becomes its own owner
(`renameImport_ownPackage`).
-/

namespace UnrealPackage

namespace Package

variable {p : Package} {stored : List (List UInt8)} {index : Nat} {name : String}

/-- A renaming within the limits of the format succeeds on every package whose imports are all
rooted, and leaves the payloads and what the import does not own as they are. Unless the import is
itself one of the packages on the path of the new name, it then bears this name, what was rooted is
rooted, and the imports that were added are named by the first parts of the name; otherwise it has
become an owner of its own, and has no full name any more. Within the limits (`Mutation.Fits`), each
part of the name has fewer than `2 ^ 31 - 1` characters, and the image stays below 4 GiB when the
names are added and when the import is renamed. -/
theorem renameImport_exact (h : p.Intact stored)
    (hsized : ∃ e ∈ p.tables.exports, 0 < e.size.toInt) (hindex : index < p.tables.imports.length)
    (hrooted : ∀ i < p.tables.imports.length, p.tables.Rooted (.ofImport i))
    (hfits : (Mutation.renameImport index name).Fits p) :
    ∃ p', Change.renameImport index name p = (.ok (), p') ∧ p'.Intact stored ∧
      p.tables.Renamed index name p'.tables ∧
      (¬{ p.tables with names := p'.tables.names }.OnPath name index →
        (∃ s, p'.tables.importFullName index = .ok s ∧ sameName s name = true) ∧
        (∀ i < p'.tables.imports.length, p'.tables.Rooted (.ofImport i)) ∧
        (∀ r, p.tables.Rooted r → p'.tables.Rooted r) ∧
        ∀ i < p'.tables.imports.length, p.tables.imports.length ≤ i →
          ∃ n s, p'.tables.importFullName i = .ok s ∧ n < (segments name).length ∧
            sameName s (dotted ((segments name).take n)) = true) ∧
      ({ p.tables with names := p'.tables.names }.OnPath name index →
        ¬p'.tables.Rooted (.ofImport index) ∧
        p'.tables.importFullName index = .error (.outerChainLoops (-index - 1))) := by
  have he : p.tables.importAt index = .ok p.tables.imports[index] := by
    rw [Tables.importAt, List.getElem?_eq_getElem hindex]
    rfl
  obtain ⟨_, p', hrun, h', -, t, ⟨more, rfl⟩, w, htables⟩ := (h.ready hsized).renameImport he
    hfits.texts (hfits.stages _ List.mem_cons_self) hfits.size
  obtain ⟨body, nameBytes, hlaid⟩ := h'.intact.laid
  obtain ⟨hn, hlength, -⟩ := hlaid.length_tables_lt
  rw [htables] at hn hlength
  rw [w.length_rename] at hlength
  have hlength := Nat.le_of_lt hlength
  have hrise : ∀ {r}, p.tables.Rooted r →
      { p.tables with names := p.tables.names ++ more }.Rooted r := by
    rintro r ⟨way, hway⟩
    exact ⟨way, hway.mono fun _ _ _ he => he⟩
  refine ⟨p', hrun, h'.intact, ?_⟩
  rw [htables]
  refine ⟨w.renamed hn hlength hindex, fun hoff => ⟨?_, fun i hi => ?_, fun r hr => ?_, ?_⟩, ?_⟩
  · exact w.importFullName_rename hn hlength hoff hindex
  · rw [w.length_rename] at hi
    by_cases hold : i < p.tables.imports.length
    · exact w.rooted_rename hlength hoff (hrise (hrooted i hold))
    · obtain ⟨n, hleads⟩ := w.exists_leadsTo_of_added (Nat.not_lt.1 hold) hi
      obtain ⟨way, hway, -⟩ := w.exists_rename_way hlength hoff n
      exact ⟨way, (w.leadsTo_iff.1 hleads).2.2 ▸ hway⟩
  · exact w.rooted_rename hlength hoff (hrise hr)
  · intro i hi hadded
    rw [w.length_rename] at hi
    obtain ⟨n, hleads⟩ := w.exists_leadsTo_of_added hadded hi
    obtain ⟨s, hs, hsame⟩ :=
      w.importFullName_rename_of_leadsTo hn hlength hoff (by omega) hleads
    exact ⟨n, s, hs, hleads.2.1, hsame⟩
  · exact fun hon => w.loops_of_onPath hn hlength hon hindex

end Package

/-- A draft with one import, of a package, and one payload. -/
def Draft.importing : Draft where
  version := 68
  licensee := 0
  flags := 1
  guid := ⟨0, 0, 0, 0⟩
  generations := []
  names := [⟨"None", 0⟩, ⟨"Core", 0⟩, ⟨"Package", 0⟩, ⟨"A", 0⟩]
  imports := [⟨1, 2, .none, 3⟩]
  exports := [(⟨.none, .none, .none, 0, 0, 0, 0⟩, [7])]

namespace Package

/-- The package that imports the package `A`. -/
def importing : Package where
  image :=
    [0xC1, 0x83, 0x2A, 0x9E, 68, 0, 0, 0, 1, 0, 0, 0, 4, 0, 0, 0, 65, 0, 0, 0, 1, 0, 0, 0, 112, 0,
      0, 0, 1, 0, 0, 0, 105, 0, 0, 0, 0, 0, 0, 0, 0, 0, 0, 0, 0, 0, 0, 0, 0, 0, 0, 0, 1, 0, 0, 0, 1,
      0, 0, 0, 4, 0, 0, 0, 7, 5, 78, 111, 110, 101, 0, 0, 0, 0, 0, 5, 67, 111, 114, 101, 0, 0, 0, 0,
      0, 8, 80, 97, 99, 107, 97, 103, 101, 0, 0, 0, 0, 0, 2, 65, 0, 0, 0, 0, 0, 1, 2, 0, 0, 0, 0, 3,
      0, 0, 0, 0, 0, 0, 0, 0, 0, 0, 0, 1, 0x40, 1]
  header := ⟨68, 0, 1, ⟨4, 65⟩, ⟨1, 112⟩, ⟨1, 105⟩, ⟨0, 0, 0, 0⟩, [⟨1, 4⟩]⟩
  tables := ⟨"P", [⟨"None", 0⟩, ⟨"Core", 0⟩, ⟨"Package", 0⟩, ⟨"A", 0⟩], [⟨1, 2, .none, 3⟩],
    [⟨.none, .none, .none, 0, 0, 1, 64⟩]⟩
  options := { writable := true }

theorem load_importing : load "P" importing.options importing.image = .ok importing := by
  decide +kernel

theorem intact_importing : importing.Intact [[7]] := by
  have hstore : Draft.importing.store .windows1252 [] = .ok importing.image :=
    Draft.store_eq_ok.2 (by decide +kernel)
  exact Draft.intact hstore load_importing rfl (by decide) (by decide) (by decide)
    (by decide +kernel)

/-- The tables of the package take a few bytes behind its payload, at 65. -/
theorem roomy_importing : importing.Roomy 65 where
  load := ⟨_, load_importing⟩
  writable := rfl
  isSingleByte := rfl
  dataEnd := by rfl
  behind := by decide
  storable := by decide
  room := by decide

theorem rooted_importing : ∀ i < importing.tables.imports.length,
    importing.tables.Rooted (.ofImport i) := by
  intro i hi
  obtain rfl := Nat.lt_one_iff.1 hi
  exact ⟨_, .owned (e := .imported 0 ⟨1, 2, .none, 3⟩) rfl .here⟩

/-- The only import is moved into a package that is added for it. -/
theorem renameImport_exact_importing :
    ∃ p', Change.renameImport 0 "B.C" importing = (.ok (), p') ∧ p'.Intact [[7]] ∧
      (∃ s, p'.tables.importFullName 0 = .ok s ∧ sameName s "B.C" = true) ∧
      ∀ i < p'.tables.imports.length, p'.tables.Rooted (.ofImport i) := by
  have hfits : (Mutation.renameImport 0 "B.C").Fits importing :=
    ⟨by decide, by decide, by decide +kernel, by decide +kernel⟩
  have hsized : ∃ e ∈ importing.tables.exports, 0 < e.size.toInt := by decide
  have hoff : ¬{ importing.tables with
      names := (Change.renameImport 0 "B.C" importing).2.tables.names }.OnPath "B.C" 0 := by
    decide +kernel
  obtain ⟨p', hrun, hintact, -, hnamed, -⟩ :=
    renameImport_exact intact_importing hsized (by decide) rooted_importing hfits
  rw [hrun] at hoff
  obtain ⟨hname, hrooted, -⟩ := hnamed hoff
  exact ⟨p', hrun, hintact, hname, hrooted⟩

/-- The only import is to be moved into a package that has its name up to now, and is found there
itself. -/
theorem renameImport_ownPackage :
    importing.Intact [[7]] ∧ (∃ e ∈ importing.tables.exports, 0 < e.size.toInt) ∧
    (∀ i < importing.tables.imports.length, importing.tables.Rooted (.ofImport i)) ∧
    (Mutation.renameImport 0 "A.B").Fits importing ∧
    ∃ p', Change.renameImport 0 "A.B" importing = (.ok (), p') ∧
      p'.tables.importFullName 0 = .error (.outerChainLoops (-1)) ∧
      ¬p'.tables.Rooted (.ofImport 0) := by
  refine ⟨intact_importing, by decide, rooted_importing,
    ⟨by decide, by decide, by decide +kernel, by decide +kernel⟩, ?_⟩
  have hok : (Change.renameImport 0 "A.B" importing).1 = .ok () := by decide +kernel
  have hloop : (Change.renameImport 0 "A.B" importing).2.tables.importFullName 0 =
      .error (.outerChainLoops (-1)) := by decide +kernel
  have hself : (Change.renameImport 0 "A.B" importing).2.tables.object (.ofImport 0) =
      .ok (some (.imported 0 ⟨1, 2, .ofImport 0, 4⟩)) := by decide +kernel
  generalize Change.renameImport 0 "A.B" importing = result at hok hloop hself
  obtain ⟨_, p'⟩ := result
  cases hok
  refine ⟨p', rfl, hloop, Tables.not_rooted_of_ring (S := (· = .ofImport 0)) ?_ rfl⟩
  rintro _ rfl
  exact ⟨_, hself, rfl⟩

end Package

end UnrealPackage
