import UnrealPackage.Proofs.Package.Rename
/-!
# Adding imports to a package

`addImports_exact` says what it does to a package to ask for imports by dotted names. Within the
limits of the format, it succeeds if the classes can be understood. Names and imports are only added
behind those there are, the names exactly where they were missing, and everything that was asked for
is there afterwards with the packages around it. So the same request again, if it does not insist on
new imports, leaves the package as it is (`addImports_again`).
-/

namespace UnrealPackage

namespace Change

variable {p : Package}

/-- Names that are known are not added. -/
theorem ensureNames_known {names : List String} (h : ∀ n ∈ names, p.tables.Knows n) :
    ensureNames names p = (.ok (), p) := by
  rw [ensureNames, bind_look, Tables.filter_isNone_of_knows h]
  rfl

/-- Imports that are there with all their names are not added. -/
theorem addImports_again {requests : List (String × String)} {wanted : List ImportRequest}
    (hwanted : importRequests requests = .ok wanted)
    (hknown : ∀ n ∈ packageClassNames ++ wanted.flatMap ImportRequest.names, p.tables.Knows n)
    (hprovides : ∀ r ∈ wanted, p.tables.Provides p.tables.imports r) :
    addImports requests false p = (.ok (), p) := by
  have hprepare : prepareImports requests p = (.ok wanted, p) := by
    rw [prepareImports, bind_ok (lift_ok hwanted), bind_ok (ensureNames_known hknown)]
    rfl
  rw [addImports, bind_ok hprepare, bind_look,
    bind_ok (gets_ok (Tables.requestImports_of_provides hprovides)), if_neg (not_not_intro rfl)]
  rfl

end Change

namespace Package

variable {p : Package} {stored : List (List UInt8)}

/-- Imports of classes with dotted names of two parts can be added to every package with a payload,
within the limits of the format. What was there stays as it is, in front of what is added: the names
that were missing, once each, and imports. Then there is an import for each name that was asked for,
with the class that it was asked for with, and imports of packages for the names in front of it; and
if the same imports are asked for again, nothing happens. Within the limits (`Mutation.Fits`), each
part of the names has fewer than `2 ^ 31 - 1` characters, and the image stays below 4 GiB when the
names are added and when the imports are. -/
theorem addImports_exact (h : p.Intact stored) (hsized : ∃ e ∈ p.tables.exports, 0 < e.size.toInt)
    {requests : List (String × String)} {force : Bool}
    (hclass : ∀ x ∈ requests, ∃ package short, segments x.2 = [package, short] ∧ package ≠ "" ∧
      short ≠ "")
    (hfits : (Mutation.addImports requests force).Fits p) :
    ∃ p', Change.addImports requests force p = (.ok (), p') ∧ p'.Intact stored ∧
      p'.tables.package = p.tables.package ∧
      NamesAdded p.tables.names
        ((packageClassNames ++ requests.flatMap fun x => segments x.1 ++ segments x.2).map
          fun n => ⟨n, implicitFlags⟩) p'.tables.names ∧
      p.tables.imports <+: p'.tables.imports ∧ p'.tables.exports = p.tables.exports ∧
      (∀ i, p'.exportData i = p.exportData i) ∧
      (∀ x ∈ requests, p'.tables.ImportsAs x.1 x.2 ∧ ∀ n, 0 < n → n < (segments x.1).length →
        p'.tables.ImportsAs (dotted ((segments x.1).take n)) "Core.Package") ∧
      Change.addImports requests false p' = (.ok (), p') := by
  obtain ⟨wanted, hwanted⟩ := exists_importRequests fun x hx => by
    obtain ⟨package, short, hsegments, hne⟩ := hclass x hx
    exact ⟨⟨package, short⟩, ClassPath.ofName_eq_ok.2 ⟨hsegments, hne⟩⟩
  have hnames := hfits.stages _ List.mem_cons_self
  rw [Change.after_bind_pure] at hnames
  obtain ⟨_, p', hrun, h', -, t, hlearned, hafter, htables⟩ := (h.ready hsized).addImports hwanted
    hfits.requests hnames hfits.size
  obtain ⟨hn, hlength, -⟩ := h'.intact.length_tables_lt
  have hsame : p'.tables.names = t.names := by rw [htables]
  have hprovides : ∀ r ∈ wanted, p'.tables.Provides p'.tables.imports r :=
    fun r hr => (Tables.provides_of_requestImports hafter r hr).congr hsame
  have hknown : ∀ n ∈ packageClassNames ++ wanted.flatMap ImportRequest.names,
      p'.tables.Knows n := by
    intro n hn
    refine Tables.Knows.mono (Tables.knows_learn (t := p.tables) n hn) ?_
    rw [hsame, hlearned]
    exact List.Subset.refl _
  refine ⟨p', hrun, h'.intact, ?_, ?_, ?_, ?_, h.exportData_eq h'.intact, fun x hx => ?_,
    Change.addImports_again hwanted hknown hprovides⟩
  · rw [htables, hlearned]
    rfl
  · rw [hsame, hlearned, names_importRequests hwanted]
    exact Tables.namesAdded_learn _ _
  · obtain ⟨more, hmore⟩ := Tables.exists_requestImports_append hafter
    rw [hmore, hlearned]
    exact List.prefix_append _ _
  · rw [htables, hlearned]
    rfl
  · obtain ⟨type, htype, hmem⟩ := mem_importRequests hwanted x hx
    have hthere := hprovides _ hmem
    refine ⟨?_, fun n => hthere.importsAs_package hn (Nat.le_of_lt hlength)⟩
    rw [← dotted_segments x.2, (ClassPath.ofName_eq_ok.1 htype).1]
    exact hthere.importsAs hn (Nat.le_of_lt hlength)

/-- Two imports of one package, which is there under another spelling, are asked for. -/
theorem addImports_exact_importing :
    ∃ p', Change.addImports [("a.B", "Core.Class"), ("A.c.D", "core.Texture")] true importing =
        (.ok (), p') ∧ p'.Intact [[7]] ∧
      p'.tables.ImportsAs "a.B" "Core.Class" ∧ p'.tables.ImportsAs "A.c.D" "core.Texture" ∧
      p'.tables.ImportsAs "A.c" "Core.Package" ∧
      Change.addImports [("a.B", "Core.Class"), ("A.c.D", "core.Texture")] false p' =
        (.ok (), p') := by
  have hfits : (Mutation.addImports [("a.B", "Core.Class"), ("A.c.D", "core.Texture")] true).Fits
      importing := ⟨by decide, by decide, by decide +kernel, by decide +kernel⟩
  have hclass : ∀ x ∈ [("a.B", "Core.Class"), ("A.c.D", "core.Texture")], ∃ package short,
      segments x.2 = [package, short] ∧ package ≠ "" ∧ short ≠ "" := by
    simp only [List.forall_mem_cons]
    exact ⟨⟨"Core", "Class", by decide⟩, ⟨"core", "Texture", by decide⟩, nofun⟩
  obtain ⟨p', hrun, hintact, -, -, -, -, -, hthere, hagain⟩ :=
    addImports_exact intact_importing (by decide) hclass hfits
  obtain ⟨hfirst, -⟩ := hthere _ List.mem_cons_self
  obtain ⟨hsecond, hpackages⟩ := hthere _ (List.mem_cons_of_mem _ List.mem_cons_self)
  exact ⟨p', hrun, hintact, hfirst, hsecond, hpackages 2 (by decide) (by decide), hagain⟩

/-- The names of an import are stored before it is, so one that is too long fails there. -/
theorem prepareImports_letters {n : Nat} (hn : n = 0x7FFFFFFF) :
    ∃ image, Change.prepareImports [(letters n, "Core.Package")] importing =
      (.error .truncated, { importing with image }) ∧ image.length < 0x100000000 := by
  have hwanted : importRequests [(letters n, "Core.Package")] =
      .ok [⟨letters n, ⟨"Core", "Package"⟩⟩] := rfl
  have hknown : ∀ x ∈ packageClassNames, importing.tables.Knows x := by
    simp only [packageClassNames, Tables.knows_iff]
    decide
  obtain ⟨image, hrun, hsize, -⟩ := roomy_importing.ensureNames hn hknown hknown
  refine ⟨image, ?_, hsize⟩
  rw [Change.prepareImports, Change.bind_ok (Change.lift_ok hwanted)]
  refine Change.bind_error ?_
  simp only [List.flatMap_cons, List.flatMap_nil, List.append_nil, ImportRequest.names,
    segments_letters]
  exact hrun

/-- The limits are needed. Below 4 GiB a request may have a name that is too long, and the change
fails; and the names of packages are added even if nothing is asked for. -/
theorem addImports_exact_needs_limits :
    importing.Intact [[7]] ∧ (∃ e ∈ importing.tables.exports, 0 < e.size.toInt) ∧
    (∃ requests, (∀ x ∈ requests, ∃ package short, segments x.2 = [package, short] ∧
        package ≠ "" ∧ short ≠ "") ∧
      (∀ c ∈ (Mutation.addImports requests false).stages,
        (c importing).2.image.length < 0x100000000) ∧
      (Change.addImports requests false importing).2.image.length < 0x100000000 ∧
      (Change.addImports requests false importing).1 = .error .truncated) ∧
    single.Intact [[7]] ∧ (∃ e ∈ single.tables.exports, 0 < e.size.toInt) ∧
    (Change.addImports [] false single).1 = .ok () ∧
    (Change.addImports [] false single).2.tables.names =
      [⟨"None", 0⟩, ⟨"Core", implicitFlags⟩, ⟨"Package", implicitFlags⟩] := by
  refine ⟨intact_importing, by decide, ⟨[(letters 0x7FFFFFFF, "Core.Package")], ?_⟩, intact_single,
    by decide, by decide +kernel, by decide +kernel⟩
  obtain ⟨image, hprepare, hsize⟩ := prepareImports_letters rfl
  have hrun : Change.addImports [(letters 0x7FFFFFFF, "Core.Package")] false importing =
      (.error .truncated, { importing with image }) := Change.bind_error hprepare
  refine ⟨List.forall_mem_singleton.2 ⟨"Core", "Package", by decide⟩,
    List.forall_mem_singleton.2 ?_, by rwa [hrun], by rw [hrun]⟩
  rwa [Change.after_bind_pure, hprepare]

end Package

end UnrealPackage
