import UnrealPackage.Proofs.Package.Fixed
import UnrealPackage.Proofs.Package.Run
import UnrealPackage.Proofs.Tables.Distinct
/-!
# Names stay distinct

Calls that say by name what they want (`Mutation.byName`) add the names that are missing and leave
the others alone, so distinct names stay distinct along a run of them. One of the calls does not
look at the other names: it replaces an entry by index, and if another entry bears the new name, the
name is there twice afterwards. `Package.names_stay_distinct` says that this is the only way.

The package may have come from anywhere: nothing is asked of where its tables lie. Only the payloads
have to end behind the header (`Package.Appendable`). Where they do not, the new tables are written
over the header, and then the places of the tables over the names (`Package.names_collide`).
-/

namespace UnrealPackage

open Decode

/-! ## Tables behind the payloads -/

namespace Package

/-- Tables can be put behind the payloads without touching the header, wherever they lie now. -/
structure Appendable (p : Package) : Prop where
  image : ∃ tail, p.image = p.header.encode ++ tail
  generations : p.header.generations.length ≤ Header.generationLimit
  behind : ∀ position, p.dataEnd = .ok position → p.header.encodedLength ≤ position
  storable : ∀ e ∈ p.tables.names, StorableText e.name

variable {p p' : Package} {t : Tables} {payloads : List PendingPayload} {position : Nat}

/-- A package that was read from less than 4 GiB has tables that can be put behind its payloads. -/
theorem appendable_of_load {name : String} {options : PackageOptions} {image : List UInt8}
    (hload : Package.load name options image = .ok p) (hsize : image.length < 0x100000000)
    (hbehind : ∀ position, p.dataEnd = .ok position → p.header.encodedLength ≤ position) :
    p.Appendable := by
  obtain ⟨hread, rfl, -⟩ := load_eq_ok.1 hload
  obtain ⟨⟨tail, hheader⟩, -, hnames, -, -⟩ := readImage_eq_ok.1 hread
  obtain ⟨hg, himage⟩ := Header.decode_eq_ok.1 hheader
  obtain ⟨rest, hnames⟩ := readTable_eq_ok.1 hnames
  refine ⟨⟨tail, himage⟩, hg, hbehind, fun e he => storable_of_nameTable hnames ?_ he⟩
  rw [List.length_drop]
  omega

/-- Where exports were added, the payloads end where they did or later. -/
theorem dataEnd_le (hsub : p.tables.exports ⊆ p'.tables.exports) {position' : Nat}
    (hd : p.dataEnd = .ok position) (hd' : p'.dataEnd = .ok position') : position ≤ position' := by
  obtain ⟨⟨e, he, hpos, rfl⟩, -⟩ := dataEnd_eq_ok.1 hd
  exact (dataEnd_eq_ok.1 hd').2 e (hsub he) hpos

/-- A relocation for new exports stores its tables behind the payloads, or changes nothing. -/
theorem Appendable.relocate (h : p.Appendable) (hpackage : t.package = p.tables.package)
    (hs : ∀ e ∈ t.names, StorableText e.name) (hexports : p.tables.exports <+: t.exports)
    (hnew : ∀ x ∈ payloads, p.tables.exports.length ≤ x.index)
    (hsize : (Change.relocate t payloads p).2.image.length < 0x100000000) :
    (∃ e, Change.relocate t payloads p = (.error e, p)) ∨
      ∃ p', Change.relocate t payloads p = (.ok (), p') ∧ p'.Appendable ∧
        p'.tables.names = t.names := by
  cases hw : p.options.writable with
  | false =>
    refine .inl ⟨.readOnly, ?_⟩
    rw [Change.relocate, Change.bind_error (Change.ensureWritable_error hw)]
  | true =>
    cases hd : p.dataEnd with
    | error e => exact .inl ⟨e, Change.relocate_error hw hd⟩
    | ok position =>
      have hbehind := h.behind position hd
      obtain ⟨tail, himage⟩ := h.image
      obtain ⟨p', hrun, hp'⟩ :=
        Change.relocate_ok hw hd himage h.generations hbehind hpackage hs hsize
      obtain ⟨_, _, hlaid⟩ := hp'.laid
      -- the exports that were there keep their places, so the end can only move on
      have hsub : p.tables.exports ⊆ p'.tables.exports := by
        rw [hp'.tables]
        exact (isPrefix_placePayloads hexports hnew).subset
      have hnames : p'.tables.names = t.names := by
        rw [hp'.tables]
        rfl
      refine .inr ⟨p', hrun, ⟨⟨_, hlaid.image⟩, hlaid.generations, fun position' hd' => ?_, ?_⟩,
        hnames⟩
      · rw [hp'.encodedLength]
        exact Nat.le_trans hbehind (dataEnd_le hsub hd hd')
      · rwa [hnames]

/-- An entry is replaced whatever the other names are, or nothing has changed. -/
theorem Appendable.updateName (h : p.Appendable) {index : Nat} {e : NameEntry}
    (hs : StorableText e.name)
    (hsize : (Change.updateName index e p).2.image.length < 0x100000000) :
    (∃ error, Change.updateName index e p = (.error error, p)) ∨
      ∃ p', Change.updateName index e p = (.ok (), p') ∧ index < p.tables.names.length ∧
        p'.Appendable ∧ p'.tables.names = p.tables.names.set index e := by
  by_cases hindex : index < p.tables.names.length
  · have hrun : Change.updateName index e p =
        Change.relocate { p.tables with names := p.tables.names.set index e } [] p := by
      rw [Change.updateName, Change.bind_ok (Change.gets_ok (if_pos hindex)), Change.updateNames,
        Change.relocateTables_eq]
    rw [hrun] at hsize ⊢
    rcases h.relocate (t := { p.tables with names := p.tables.names.set index e }) rfl
      (storable_set h.storable hs) (List.prefix_refl _) (List.forall_mem_nil _) hsize with
      hsame | ⟨p', hp', happendable, hnames⟩
    · exact .inl hsame
    · exact .inr ⟨p', hp', hindex, happendable, hnames⟩
  · rw [Change.updateName, Change.bind_error (Change.gets_error (if_neg hindex))]
    exact .inl ⟨_, rfl⟩

/-! ## Distinct names -/

/-- A package without repeated names, which may be given more. -/
structure Distinct (p : Package) : Prop where
  appendable : p.Appendable
  names : NamesDistinct p.tables.names

namespace Distinct

/-- A relocation keeps the names distinct if those that it stores are, and moves no payload that
there was. -/
theorem relocate (h : p.Distinct) (hpackage : t.package = p.tables.package)
    (hs : ∀ e ∈ t.names, StorableText e.name) (hnames : NamesDistinct t.names)
    (hexports : p.tables.exports <+: t.exports)
    (hnew : ∀ x ∈ payloads, p.tables.exports.length ≤ x.index) :
    Change.Keeps Distinct (Change.relocate t payloads) p := by
  intro hsize
  rcases h.appendable.relocate hpackage hs hexports hnew hsize with
    ⟨e, hsame⟩ | ⟨p', hp', happendable, hnames'⟩
  · rwa [hsame]
  · rw [hp']
    exact ⟨happendable, hnames' ▸ hnames⟩

/-- An edit of the tables keeps the names distinct if those that it leaves are, and leaves the
exports. -/
theorem relocateTables (h : p.Distinct) {edit : Tables → Tables}
    (hpackage : (edit p.tables).package = p.tables.package)
    (hexports : (edit p.tables).exports = p.tables.exports)
    (hs : ∀ e ∈ (edit p.tables).names, StorableText e.name)
    (hnames : NamesDistinct (edit p.tables).names) :
    Change.Keeps Distinct (Change.relocateTables edit) p := by
  rw [Change.Keeps, Change.relocateTables_eq]
  exact h.relocate hpackage hs hnames (hexports ▸ List.prefix_refl _) (List.forall_mem_nil _)

/-- Names that are added are new, and edits of the imports leave the names alone. -/
theorem stable : Change.Stable Distinct where
  addNames {p entries} h hs := by
    have hadds := namesAdded_foldl entries p.tables.names
    exact Change.keeps_addNames h (h.relocateTables rfl rfl
      (hadds.forall_mem h.appendable.storable hs) (hadds.distinct h.names))
  updateImports h := h.relocateTables rfl rfl h.appendable.storable h.names

/-- To put an export among the others does nothing to the names. -/
theorem insertExport (h : p.Distinct) {r : ExportRequest} {type super packageType : ObjectRef} :
    Change.Keeps Distinct (Change.insertExport r type super packageType) p := by
  rcases Change.insertExport_cases p r type super packageType with
    ⟨e, hrun, -⟩ | ⟨i, hrun⟩ | ⟨emptyList, k, d, -, hd, hrun⟩
  · rw [Change.Keeps, hrun]
    exact fun _ => h
  · rw [Change.Keeps, hrun]
    exact fun _ => h
  · rw [Change.Keeps, hrun, Change.after_bind_pure]
    exact h.relocate rfl h.appendable.storable h.names hd.isPrefix hd.le_index

end Distinct

end Package

/-! ## Calls -/

namespace Mutation

/-- The calls that are given names and see to the name table themselves, unlike an edit of it. -/
def byName : Mutation → Bool
  | addNames _ | updateName .. | addImports .. | renameImport .. | changeImportClass ..
  | addExport _ => true
  | _ => false

/-- No entry is given a name that another one bears. -/
def Fresh (m : Mutation) (p : Package) : Prop :=
  match m with
  | updateName index e => ∀ (i : Nat) (x : NameEntry), i ≠ index → p.tables.names[i]? = some x →
    sameName x.name e.name = false
  | _ => True

end Mutation

namespace Package.Distinct

variable {p : Package} {m : Mutation}

/-- Names stay distinct where an entry is replaced if and only if its new name is not another
one's. -/
theorem updateName (h : p.Distinct) {index : Nat} {e : NameEntry} (hs : StorableText e.name)
    (hsize : (Change.updateName index e p).2.image.length < 0x100000000) :
    (Change.updateName index e p).2.Appendable ∧
      (NamesDistinct (Change.updateName index e p).2.tables.names ↔
        ((Change.updateName index e p).1 = .ok () → (Mutation.updateName index e).Fresh p)) := by
  rcases h.appendable.updateName hs hsize with
    ⟨error, hrun⟩ | ⟨p', hrun, hindex, happendable, hnames⟩
  · rw [hrun]
    exact ⟨h.appendable, fun _ => nofun, fun _ => h.names⟩
  · rw [hrun]
    refine ⟨happendable, ?_⟩
    rw [hnames, namesDistinct_set_iff h.names hindex]
    exact ⟨fun hfresh _ => hfresh, fun hfresh => hfresh rfl⟩

/-- Every other call keeps names distinct. -/
theorem step_of_ne (h : p.Distinct) (hm : m.byName = true) (hfits : m.Fits p)
    (hne : ∀ index e, m ≠ .updateName index e) : (m.change p).2.Distinct := by
  cases m with
  | addNames _ | addImports _ _ | renameImport _ _ | changeImportClass _ _ =>
    exact stable.step h rfl hfits
  | updateName index e => exact absurd rfl (hne index e)
  | addExport r =>
    have hsize := hfits.size
    simp only [Mutation.change, Change.after_bind_pure] at hsize ⊢
    obtain ⟨hname, htype, hsuper⟩ := hfits.exportTexts
    have hprepare := stable.prepareExport h hname htype hsuper hfits.stages
    exact Change.keeps_bind hprepare (fun _ _ _ h' => h'.insertExport) hsize
  | _ => cases hm

/-- After a call, the names are distinct unless the call succeeded and gave an entry the name of
another. -/
theorem step (h : p.Distinct) (hm : m.byName = true) (hfits : m.Fits p) :
    (m.change p).2.Appendable ∧ (NamesDistinct (m.change p).2.tables.names ↔
      ((m.change p).1 = .ok () → m.Fresh p)) := by
  cases m with
  | updateName index e => exact h.updateName (hfits.texts _ List.mem_cons_self) hfits.size
  | _ =>
    have h' := h.step_of_ne hm hfits nofun
    exact ⟨h'.appendable, fun _ _ => trivial, fun _ => h'.names⟩

end Package.Distinct

/-! ## Runs -/

/-- The packages that calls by name make of `start`, as long as those that succeed give no entry a
name that another one bears. -/
inductive NamingRun (start : Package) : Package → Prop
  | refl : NamingRun start start
  | step {p : Package} (m : Mutation) : NamingRun start p → m.byName = true → m.Fits p →
    ((m.change p).1 = .ok () → m.Fresh p) → NamingRun start (m.change p).2

/-- Names are distinct along a run if they are at its start. -/
theorem NamingRun.distinct {start p : Package} (hrun : NamingRun start p) (h : start.Distinct) :
    p.Distinct := by
  induction hrun with
  | refl => exact h
  | step m _ hm hfits hfresh ih =>
    obtain ⟨happendable, hnames⟩ := ih.step hm hfits
    exact ⟨happendable, hnames.2 hfresh⟩

/-- Whatever calls by name are made on a package that was opened with distinct names, whatever each
of them is given and gives, the names stay distinct as long as no call puts the name of one entry in
the place of another: the name at an index is found at that index, and a name is found where an
entry bears it. No weaker condition will do: wherever a run has got to, the names are distinct after
the next call if and only if that call meets it too. The calls have to stay within the limits of the
format (`Mutation.Fits`): names or parts of names below `2 ^ 31 - 1` characters, payloads below
2 GiB, and images below 4 GiB, also between the relocations of one call. -/
theorem Package.names_stay_distinct {name : String} {options : PackageOptions} {image : List UInt8}
    {start p : Package} (hload : Package.load name options image = .ok start)
    (hsize : image.length < 0x100000000)
    (hbehind : ∀ position, start.dataEnd = .ok position → start.header.encodedLength ≤ position)
    (hdistinct : NamesDistinct start.tables.names) (hrun : NamingRun start p) :
    NamesDistinct p.tables.names ∧
    (∀ index n, p.tables.name index = .ok n → p.tables.nameIndex n = .ok index) ∧
    (∀ n i, p.tables.nameIndex? n = some i ↔
      ∃ e, p.tables.names[i]? = some e ∧ sameName e.name n = true) ∧
    ∀ m : Mutation, m.byName = true → m.Fits p →
      (NamesDistinct (m.change p).2.tables.names ↔ ((m.change p).1 = .ok () → m.Fresh p)) := by
  have h : p.Distinct := hrun.distinct ⟨appendable_of_load hload hsize hbehind, hdistinct⟩
  refine ⟨h.names, ?_, ?_, ?_⟩
  · intro index n hname
    exact h.names.nameIndex_name hname
  · intro n i
    exact h.names.nameIndex?_eq_some_iff
  · intro m hm hfits
    exact (h.step hm hfits).2

/-- A name is added to the only one of a package, which then gets another spelling. -/
theorem Package.names_stay_distinct_single :
    let p₁ := ((Mutation.addNames [⟨"NONE", 1⟩, ⟨"Core", 0⟩, ⟨"core", 0⟩]).change single).2
    let p₂ := ((Mutation.updateName 0 ⟨"none", 4⟩).change p₁).2
    p₂.tables.names = [⟨"none", 4⟩, ⟨"Core", 0⟩] ∧ NamesDistinct p₂.tables.names ∧
      p₂.tables.nameIndex "none" = .ok 0 := by
  intro p₁ p₂
  have hload : Package.load "P" single.options single.image = .ok single := by rfl
  have hbehind : ∀ position, single.dataEnd = .ok position →
      single.header.encodedLength ≤ position := by
    intro position hd
    cases hd
    decide
  have hfits₁ : (Mutation.addNames [⟨"NONE", 1⟩, ⟨"Core", 0⟩, ⟨"core", 0⟩]).Fits single :=
    ⟨by decide, by decide, by decide, by decide +kernel⟩
  have hfits₂ : (Mutation.updateName 0 ⟨"none", 4⟩).Fits p₁ :=
    ⟨by decide, by decide, by decide, by decide +kernel⟩
  have hnames₁ : p₁.tables.names = [⟨"None", 0⟩, ⟨"Core", 0⟩] := by decide +kernel
  have hnames₂ : p₂.tables.names = [⟨"none", 4⟩, ⟨"Core", 0⟩] := by decide +kernel
  have hfresh : (Mutation.updateName 0 ⟨"none", 4⟩).Fresh p₁ := by
    intro i x hi hx
    rw [hnames₁] at hx
    rcases i with _ | _ | i
    · exact absurd rfl hi
    · cases hx
      decide
    · cases hx
  have hstart : NamingRun single single := .refl
  have hrun : NamingRun single p₂ :=
    (hstart.step _ rfl hfits₁ fun _ => trivial).step _ rfl hfits₂ fun _ => hfresh
  obtain ⟨hdistinct, hindex, -, -⟩ :=
    Package.names_stay_distinct hload (by decide) hbehind (by decide) hrun
  refine ⟨hnames₂, hdistinct, hindex 0 "none" ?_⟩
  rw [Tables.name, hnames₂]
  rfl

/-- A package whose only payload is the signature in its header. -/
def Package.overlaid : Package where
  image :=
    [0xC1, 0x83, 0x2A, 0x9E, 68, 0, 0, 0, 1, 0, 0, 0, 3, 0, 0, 0, 56, 0, 0, 0, 1, 0, 0, 0, 145, 0,
      0, 0, 0, 0, 0, 0, 145, 0, 0, 0, 0, 0, 0, 0, 0, 0, 0, 0, 0, 0, 0, 0, 0, 0, 0, 0, 0, 0, 0, 0,
      32, 120, 120, 120, 120, 120, 120, 120, 120, 120, 120, 120, 120, 120, 120, 120, 120, 120, 120,
      120, 120, 120, 120, 120, 120, 120, 120, 120, 120, 120, 120, 120, 0, 0, 0, 0, 0,
      10, 109, 109, 109, 109, 109, 109, 109, 109, 109, 0, 0, 0, 0, 0,
      32, 120, 120, 120, 120, 120, 120, 120, 4, 0, 0, 0, 4, 0, 0, 0, 1, 0, 0, 0, 100, 0, 0, 0, 0, 0,
      0, 0, 100, 0, 0, 0, 0, 0, 0, 0, 0,
      0, 0, 0, 0, 0, 0, 0, 0, 0, 0, 0, 4, 0]
  header := ⟨68, 0, 1, ⟨3, 56⟩, ⟨1, 145⟩, ⟨0, 145⟩, ⟨0, 0, 0, 0⟩, []⟩
  tables := ⟨"P", [⟨"xxxxxxxxxxxxxxxxxxxxxxxxxxxxxxx", 0⟩, ⟨"mmmmmmmmm", 0⟩,
    ⟨"xxxxxxx\x04\x00\x00\x00\x04\x00\x00\x00\x01\x00\x00\x00" ++
      "d\x00\x00\x00\x00\x00\x00\x00d\x00\x00\x00", 0⟩],
    [], [⟨.none, .none, .none, 0, 0, 4, 0⟩]⟩
  options := { writable := true }

/-- A name is put in the place of another though an entry bears it already. And where new tables are
written over the header, what the header then says of their places is written over a name. -/
theorem Package.names_collide :
    (Package.load "P" single.options single.image = .ok single ∧
      NamesDistinct single.tables.names ∧
      let p₁ := ((Mutation.addNames [⟨"A", 0⟩]).change single).2
      let p₂ := ((Mutation.updateName 1 ⟨"none", 0⟩).change p₁).2
      p₂.tables.name 1 = .ok "none" ∧ p₂.tables.nameIndex "none" = .ok 0 ∧
        ¬NamesDistinct p₂.tables.names) ∧
    Package.load "P" overlaid.options overlaid.image = .ok overlaid ∧
      NamesDistinct overlaid.tables.names ∧
      ¬NamesDistinct ((Mutation.addNames [⟨"N", 0⟩]).change overlaid).2.tables.names := by
  have hnames : ((Mutation.updateName 1 ⟨"none", 0⟩).change
      ((Mutation.addNames [⟨"A", 0⟩]).change single).2).2.tables.names =
        [⟨"None", 0⟩, ⟨"none", 0⟩] := by decide +kernel
  refine ⟨⟨by rfl, by decide, ?_, ?_, ?_⟩, by rfl, by decide +kernel, by decide +kernel⟩
  · rw [Tables.name, hnames]
    rfl
  · rw [Tables.nameIndex, Tables.nameIndex?, hnames]
    rfl
  · rw [hnames]
    decide

end UnrealPackage
