import UnrealPackage.Proofs.Library.Depth
import UnrealPackage.Proofs.Tables.FullNameMemo
/-!
# Memos that hold what is so

A memo is `Sound` for a library if all that it holds is what the library gives: packages, full
names, the fields that exports are, the fields of structs, and the native functions. Entries are
found by names in lower case, so this needs a source that finds packages without regard to case
(`PackageSource.ByName`), as shelves do that were filled one image at a time
(`ImageShelf.byName_source`).

Questions are asked with a sound memo and leave one. What is `remembered` is bounded as what is
found without a memo, and so is the access of a session (`Session.asks_access`).
-/

namespace UnrealPackage

/-! ## Sources that find by name -/

/-- Whether packages are found without regard to case, under their own names. -/
structure PackageSource.ByName (s : PackageSource) : Prop where
  find_congr : ∀ {name name'}, foldCase name = foldCase name' → s.find name = s.find name'
  named : ∀ {name p}, s.find name = .ok (some p) → foldCase p.tables.package = foldCase name

/-- A package has the name that it was loaded under. -/
theorem Package.package_of_load {name : String} {options : PackageOptions} {image : List UInt8}
    {p : Package} (h : load name options image = .ok p) : p.tables.package = name := by
  obtain ⟨⟨header, tables⟩, hread, h⟩ := except_bind_eq_ok.1 h
  cases h
  obtain ⟨_, -, h⟩ := except_bind_eq_ok.1 hread
  obtain ⟨_, -, h⟩ := except_bind_eq_ok.1 h
  obtain ⟨_, -, h⟩ := except_bind_eq_ok.1 h
  obtain ⟨_, -, h⟩ := except_bind_eq_ok.1 h
  cases h
  rfl

namespace ImageShelf

/-- Whether images lie under the names that they were stored under, in lower case. -/
def Keyed (s : ImageShelf) : Prop :=
  ∀ entry ∈ s.images, entry.1 = foldCase entry.2.1

theorem keyed_empty : empty.Keyed :=
  nofun

/-- An image that is added lies under its own name in lower case, too. -/
theorem Keyed.insert {s : ImageShelf} (h : s.Keyed) (name : String) (image : List UInt8) :
    (s.insert name image).Keyed := by
  intro entry hmem
  rcases List.mem_append.1 hmem with hmem | hmem
  · exact h entry (List.mem_filter.1 hmem).1
  · cases List.mem_singleton.1 hmem
    rfl

/-- The shelf that some images were put on, one after the other. -/
def ofList (images : List (String × List UInt8)) : ImageShelf :=
  images.foldl (fun s image => s.insert image.1 image.2) empty

/-- A shelf made of images with their names is in order. -/
theorem keyed_ofList (images : List (String × List UInt8)) : (ofList images).Keyed := by
  have hkept : ∀ s : ImageShelf, s.Keyed →
      (images.foldl (fun s image => s.insert image.1 image.2) s).Keyed := by
    induction images with
    | nil => exact fun _ h => h
    | cons image images ih => exact fun s h => ih _ (h.insert image.1 image.2)
  exact hkept _ keyed_empty

/-- What stands on a shelf that is in order is found by name, in any case. -/
theorem byName_source {s : ImageShelf} (h : s.Keyed) (options : PackageOptions) :
    (s.source options).ByName := by
  refine ⟨fun {name name'} hname => ?_, fun {name p} hfind => ?_⟩
  · simp only [source, hname]
  · simp only [source] at hfind
    split at hfind
    · next found hlookup =>
      obtain ⟨⟨key, stored, image⟩, hmem, hentry⟩ := List.mem_map.1 (mem_of_lookup hlookup)
      obtain ⟨hkey, hload⟩ := Prod.mk.inj hentry
      have hstored : key = foldCase stored := h _ hmem
      cases found with
      | error e => cases hfind
      | ok p' =>
        cases hfind
        rw [Package.package_of_load hload, ← hstored]
        exact hkey
    · cases hfind

end ImageShelf

/-- Whether the packages of a library are images in memory. -/
def Library.InMemory (l : Library) : Prop :=
  ∃ images options, l.source = (ImageShelf.ofList images).source options

theorem Library.InMemory.counted {l : Library} (h : l.InMemory) : l.source.Counted := by
  obtain ⟨images, options, hsource⟩ := h
  rw [hsource]
  exact ImageShelf.counted_source _ options

theorem Library.InMemory.byName {l : Library} (h : l.InMemory) : l.source.ByName := by
  obtain ⟨images, options, hsource⟩ := h
  rw [hsource]
  exact ImageShelf.byName_source (ImageShelf.keyed_ofList images) options

/-! ## Looking for names in any case -/

namespace Library

variable {l : Library} {x y : Located} {name name' : String}

theorem package_congr (hnames : l.source.ByName) (h : foldCase name = foldCase name') {p : Package}
    (hp : l.package name = .ok p) : l.package name' = .ok p := by
  rw [package_eq_ok] at hp ⊢
  rw [← hnames.find_congr h]
  exact hp

/-- Another spelling of a full name leads to the same export. -/
theorem locate_congr (hnames : l.source.ByName) (h : foldCase name = foldCase name')
    (hx : l.locate name = .ok x) : l.locate name' = .ok x := by
  obtain ⟨p, hp, hx⟩ := except_bind_eq_ok.1 hx
  have hfirst : foldCase (firstSegment name) = foldCase (firstSegment name') := by
    rw [foldCase_firstSegment, foldCase_firstSegment, h]
  refine except_bind_eq_ok.2 ⟨p, package_congr hnames hfirst hp, ?_⟩
  rw [← p.tables.findExport?_congr h]
  split at hx
  · exact hx
  · cases hx

section

variable {record : Located → Except Error FieldRecord} {depth room : Nat}

/-- A list of fields that comes to its end is the same whatever name is given to it for its errors.
-/
theorem fieldList_congr (name' : String) {first : Option Located} {ts : List FieldTemplate}
    (h : (l.access record).fieldList depth name room first = .ok ts) :
    (l.access record).fieldList depth name' room first = .ok ts := by
  induction room generalizing first ts with
  | zero =>
    cases first with
    | none => exact h
    | some x => cases h
  | succ room ih =>
    cases first with
    | none => exact h
    | some x =>
      have hrest : ∀ (r : FieldRecord) (own : List FieldTemplate), (do
          let next ← l.resolve x r.next
          let rest ← (l.access record).fieldList depth name room next
          pure (own ++ rest)) = .ok ts → (do
          let next ← l.resolve x r.next
          let rest ← (l.access record).fieldList depth name' room next
          pure (own ++ rest)) = .ok ts := by
        intro r own h
        obtain ⟨next, hnext, h⟩ := except_bind_eq_ok.1 h
        obtain ⟨rest, hrest, h⟩ := except_bind_eq_ok.1 h
        exact except_bind_eq_ok.2 ⟨next, hnext, except_bind_eq_ok.2 ⟨rest, ih hrest, h⟩⟩
      obtain ⟨r, hr, h⟩ := except_bind_eq_ok.1 h
      refine except_bind_eq_ok.2 ⟨r, hr, ?_⟩
      split at h
      · next hproperty =>
        rw [if_pos hproperty]
        obtain ⟨own, hown, h⟩ := except_bind_eq_ok.1 h
        exact except_bind_eq_ok.2 ⟨own, hown, hrest r own h⟩
      · next hproperty =>
        rw [if_neg hproperty]
        exact hrest r [] h

/-- Own fields that are found are the same whatever name is given to them for their errors. -/
theorem ownFields_congr (name' : String) {r : FieldRecord} {ts : List FieldTemplate}
    (h : (l.access record).ownFields depth name x r = .ok ts) :
    (l.access record).ownFields depth name' x r = .ok ts := by
  rw [Access.ownFields] at h ⊢
  split at h
  · cases h
  · obtain ⟨child, hchild, h⟩ := except_bind_eq_ok.1 h
    exact except_bind_eq_ok.2 ⟨child, hchild, fieldList_congr name' h⟩

/-- Levels that are found are the same whatever name is given to them for their errors. -/
theorem levels_congr (name' : String) {chain : List (Located × FieldRecord)}
    {levels : List (List FieldTemplate)}
    (h : (chain.mapM fun (x, r) => (l.access record).ownFields depth name x r) = .ok levels) :
    (chain.mapM fun (x, r) => (l.access record).ownFields depth name' x r) = .ok levels := by
  induction chain generalizing levels with
  | nil => exact h
  | cons level chain ih =>
    rw [List.mapM_cons] at h ⊢
    obtain ⟨ts, hts, h⟩ := except_bind_eq_ok.1 h
    obtain ⟨others, hothers, h⟩ := except_bind_eq_ok.1 h
    exact except_bind_eq_ok.2 ⟨ts, ownFields_congr name' hts,
      except_bind_eq_ok.2 ⟨others, ih hothers, h⟩⟩

end

/-- The fields of a struct are found by any spelling of its name. -/
theorem fields_congr (hnames : l.source.ByName) (h : foldCase name = foldCase name')
    {ts : List FieldTemplate} (hts : l.fields name = .ok ts) : l.fields name' = .ok ts := by
  obtain ⟨x, hx, hts⟩ := except_bind_eq_ok.1 hts
  obtain ⟨chain, hchain, hts⟩ := except_bind_eq_ok.1 hts
  obtain ⟨levels, hlevels, hts⟩ := except_bind_eq_ok.1 hts
  exact except_bind_eq_ok.2 ⟨x, locate_congr hnames h hx, except_bind_eq_ok.2 ⟨chain, hchain,
    except_bind_eq_ok.2 ⟨levels, levels_congr name' hlevels, hts⟩⟩⟩

/-- An export that can be found is known by its place. -/
theorem eq_of_key (hnames : l.source.ByName) (hx : l.Found x) (hy : l.Found y)
    (h : x.key = y.key) : x = y := by
  obtain ⟨nameX, hfindX⟩ := hx
  obtain ⟨nameY, hfindY⟩ := hy
  obtain ⟨hpackage, hindex⟩ := Prod.mk.inj h
  rw [hnames.named hfindX, hnames.named hfindY] at hpackage
  rw [hnames.find_congr hpackage, hfindY] at hfindX
  cases x
  cases y
  cases hfindX
  cases hindex
  rfl

/-- The native functions that the library declares, unless one of the functions needs itself. -/
def nativeScan (l : Library) : Except Error (List Script.NativeFunction) :=
  nativesOf (fun x => Session.unlessCircular (l.recordAt x))
    (fun name => .ok (l.package name).toOption) l.nativePackages

end Library

/-! ## Sound memos -/

/-- Whether all that a memo holds is what the library gives. -/
structure Memo.Sound (l : Library) (memo : Memo) : Prop where
  packages : ∀ key p, (key, p) ∈ memo.packages → ∀ name, foldCase name = key →
    l.package name = .ok p
  fullNames : ∀ t names, (t, names) ∈ memo.fullNames → names.Sound t
  records : ∀ key r, (key, r) ∈ memo.records → ∀ x, l.Found x → x.key = key →
    l.recordAt x = .ok r
  structs : ∀ key ts, (key, ts) ∈ memo.structs → ∀ name, foldCase name = key →
    l.fields name = .ok ts
  natives : ∀ functions, memo.natives = some functions → l.nativeScan = .ok functions

/-- In an empty memory nothing is wrong. -/
theorem Memo.sound_empty (l : Library) : Memo.empty.Sound l where
  packages := nofun
  fullNames := nofun
  records := nofun
  structs := nofun
  natives := nofun

namespace Session

variable {α : Type} {l : Library} {t : Tables}

/-- A question about names is answered from what is in memory as from the tables. -/
theorem within_naming {question : Remembering α} {answer : Except Error α}
    (h : Remembering.Agrees t question answer) :
    Within (Memo.Sound l) (naming t question) answer answer := by
  intro memo hmemo
  have hnames : ((memo.fullNames.lookup t).getD .empty).Sound t := by
    cases hlookup : memo.fullNames.lookup t with
    | none => exact FullNameMemo.sound_empty t
    | some names => exact hmemo.fullNames t names (mem_of_lookup hlookup)
  have hanswer := h.answer_eq _ hnames
  simp only [Session.answer, after, naming]
  cases hq : question ((memo.fullNames.lookup t).getD .empty) with
  | error e =>
    rw [hq] at hanswer
    subst hanswer
    exact ⟨hmemo, .refl _, .refl _⟩
  | ok found =>
    rw [hq] at hanswer
    subst hanswer
    refine ⟨{ hmemo with fullNames := fun t' names hmem => ?_ }, .refl _, .refl _⟩
    rcases List.mem_cons.1 hmem with hnew | hmem
    · cases hnew
      exact h.sound _ found.1 found.2 hnames hq
    · exact hmemo.fullNames t' names (List.mem_filter.1 hmem).1

section

variable (hnames : l.source.ByName)

include hnames

/-- A package is found in memory or in the source, and is the same. -/
theorem within_package (name : String) :
    Within (Memo.Sound l) (package l name) (l.package name) (l.package name) := by
  refine .remembered (.lift (.refl _)) (.refl _) (fun memo p hmemo hlookup => ?_)
    fun memo p hmemo hp => { hmemo with packages := fun key p' hmem name' hkey => ?_ }
  · exact hmemo.packages _ p (mem_of_lookup hlookup) name rfl
  · rcases List.mem_cons.1 hmem with hnew | hmem
    · cases hnew
      exact Library.package_congr hnames hkey.symm hp
    · exact hmemo.packages key p' hmem name' hkey

/-- A full name leads to the same export with the memory as without it. -/
theorem within_locate (fullName : String) :
    Within (Memo.Sound l) (locate l fullName) (l.locate fullName) (l.locate fullName) := by
  refine (within_package hnames _).bind fun p hp => ?_
  refine (within_naming (Remembering.agrees_findExport? p.tables fullName)).bind_known ?_
  cases p.tables.findExport? fullName with
  | none => exact .raise _
  | some index => exact .pure _

/-- A reference leads to the same export with the memory as without it. -/
theorem within_resolve (x : Located) (r : ObjectRef) :
    Within (Memo.Sound l) (resolve l x r) (l.resolve x r) (l.resolve x r) := by
  rw [resolve, Library.resolve]
  cases r.target with
  | nothing => exact .pure none
  | exported index => exact .pure _
  | imported index =>
    exact (within_naming (Remembering.agrees_importFullName _ index)).bind fun fullName _ =>
      (within_locate hnames fullName).map _

/-- The access of a session whose fields lie between two others. -/
theorem asks_access {record : Located → Session FieldRecord}
    {low high : Located → Except Error FieldRecord}
    (h : ∀ x, l.Found x → Within (Memo.Sound l) (record x) (low x) (high x)) :
    Asks l (Memo.Sound l) (access l record) low high where
  locate := within_locate hnames
  resolve := within_resolve hnames
  fullName x := within_naming (Remembering.agrees_exportFullName _ x.index)
  objectFullName _ r := within_naming (Remembering.agrees_objectFullName _ r)
  record := h

end

end Session

end UnrealPackage
