import Mathlib.Logic.Relation
import UnrealPackage.Library.Fields
import UnrealPackage.Proofs.Library.Source
import UnrealPackage.Proofs.Tables.Owners
/-!
# Templates of properties

`Describes` says when a template is that of a property: it has the name and the number of slots of
the record and the kind of its type, where arrays carry the template of their elements and structs
and objects the full name of what they refer to.

A property is `Typed` if its array leads down to a property that is no array and all types on the
way refer to what is there. Such a property has a template (`Typed.template_eq`): what an array
leads down to is never met twice, so there is no more of it than there are exports.
-/

namespace UnrealPackage

namespace Library

/-! ## What templates tell -/

/-- The kind of value that a type stands for, with what it refers to from `x`. -/
inductive HasKind (l : Library) : Located → PropertyType → PropertyKind → Prop
  | byte {x : Located} {enumType : ObjectRef} : HasKind l x (.byte enumType) .byte
  | int {x : Located} : HasKind l x .int .int
  | bool {x : Located} : HasKind l x .bool .bool
  | float {x : Located} : HasKind l x .float .float
  | object {x : Located} {objectType : ObjectRef} {name : String} :
    x.package.tables.HasFullName objectType name → HasKind l x (.object objectType) (.object name)
  | classRef {x : Located} {objectType metaClass : ObjectRef} :
    HasKind l x (.classRef objectType metaClass) .classRef
  | name {x : Located} : HasKind l x .name .name
  | str {x : Located} : HasKind l x .str .str
  | string {x : Located} : HasKind l x .string .str
  | array {x y : Located} {inner : ObjectRef} {r : FieldRecord} {info : PropertyInfo}
    {kind : PropertyKind} : l.resolve x inner = .ok (some y) → l.recordAt y = .ok r →
    r.body = .property info → HasKind l y info.type kind →
    HasKind l x (.array inner) (.array r.name kind (max info.arrayDim.toUInt32 1))
  | struct {x : Located} {structType : ObjectRef} {name : String} :
    x.package.tables.HasFullName structType name → HasKind l x (.struct structType) (.struct name)
  | delegate {x : Located} {function : ObjectRef} : HasKind l x (.delegate function) .delegate
  | map {x : Located} {key value : ObjectRef} : HasKind l x (.map key value) .map
  | fixedArray {x : Located} {inner : ObjectRef} {count : Int32} :
    HasKind l x (.fixedArray inner count) .fixedArray
  | pointer {x : Located} : HasKind l x .pointer .pointer

/-- Whether a template is that of the property that the export is. -/
def Describes (l : Library) (x : Located) (t : FieldTemplate) : Prop :=
  ∃ r info, l.recordAt x = .ok r ∧ r.body = .property info ∧ t.name = r.name ∧
    l.HasKind x info.type t.kind ∧ t.arrayDim = max info.arrayDim.toUInt32 1

/-- Whether one export is an array property with another one for its elements. -/
def ElementOf (l : Library) (x y : Located) : Prop :=
  ∃ r info inner, l.recordAt x = .ok r ∧ r.body = .property info ∧ info.type = .array inner ∧
    l.resolve x inner = .ok (some y)

/-- Whether what a type refers to from `x` is there. -/
def Refers (l : Library) (x : Located) : PropertyType → Prop
  | .array inner => ∃ y, l.resolve x inner = .ok (some y)
  | .object target | .struct target => ∃ name, x.package.tables.HasFullName target name
  | _ => True

/-- Whether the elements of arrays lead down to a property that is no array, over properties whose
types refer to what is there. -/
structure Typed (l : Library) (x : Located) : Prop where
  acyclic : ∀ y, Relation.ReflTransGen l.ElementOf x y → ¬Relation.TransGen l.ElementOf y y
  refers : ∀ y, Relation.ReflTransGen l.ElementOf x y →
    ∃ r info, l.recordAt y = .ok r ∧ r.body = .property info ∧ l.Refers y info.type

/-- The access of a library by itself. -/
abbrev plain (l : Library) : Access (Except Error) :=
  l.access l.recordAt

variable {l : Library} {x y : Located} {r : FieldRecord}

theorem index_lt_of_recordAt (h : l.recordAt x = .ok r) :
    x.index < x.package.tables.exports.length :=
  index_lt_of_decode h

theorem Found.holds (h : l.Found x) (hr : l.recordAt x = .ok r) : l.Holds x :=
  ⟨h, index_lt_of_recordAt hr⟩

theorem Found.element (h : l.Found x) (hxy : l.ElementOf x y) : l.Found y := by
  obtain ⟨r, info, inner, -, -, -, hy⟩ := hxy
  exact h.resolve hy

/-! ## Elements of arrays -/

theorem Typed.element (h : l.Typed x) (hxy : l.ElementOf x y) : l.Typed y :=
  ⟨fun z hz => h.acyclic z (hz.head hxy), fun z hz => h.refers z (hz.head hxy)⟩

/-- A property has one property for its elements at most. -/
theorem ElementOf.unique {y' : Located} (h : l.ElementOf x y) (h' : l.ElementOf x y') : y = y' := by
  obtain ⟨r, info, inner, hr, hbody, htype, hy⟩ := h
  obtain ⟨r', info', inner', hr', hbody', htype', hy'⟩ := h'
  cases hr.symm.trans hr'
  cases hbody.symm.trans hbody'
  cases htype.symm.trans htype'
  cases hy.symm.trans hy'
  rfl

/-- A property that is no array and whose type refers to what is there can be told. -/
theorem typed_of_refers {info : PropertyInfo} (hr : l.recordAt x = .ok r)
    (hbody : r.body = .property info) (harray : ∀ inner, info.type ≠ .array inner)
    (hrefers : l.Refers x info.type) : l.Typed x := by
  have hend : ∀ y, ¬l.ElementOf x y := by
    rintro y ⟨r', info', inner, hr', hbody', htype, -⟩
    cases hr.symm.trans hr'
    cases hbody.symm.trans hbody'
    exact harray inner htype
  have hhere : ∀ y, Relation.ReflTransGen l.ElementOf x y → y = x := by
    intro y hxy
    rcases hxy.cases_head with rfl | ⟨z, hxz, -⟩
    · rfl
    · exact absurd hxz (hend z)
  refine ⟨fun y hxy hloop => ?_, fun y hxy => ?_⟩
  · cases hhere y hxy
    obtain ⟨z, hxz, -⟩ := Relation.TransGen.head'_iff.1 hloop
    exact hend z hxz
  · cases hhere y hxy
    exact ⟨r, info, hr, hbody, hrefers⟩

/-- An array can be told if the property of its elements can. -/
theorem typed_of_element (hxy : l.ElementOf x y) (h : l.Typed y) : l.Typed x := by
  have hrest : ∀ z, Relation.ReflTransGen l.ElementOf x z →
      z = x ∨ Relation.ReflTransGen l.ElementOf y z := by
    intro z hxz
    rcases hxz.cases_head with rfl | ⟨y', hxy', hz⟩
    · exact .inl rfl
    · cases hxy.unique hxy'
      exact .inr hz
  refine ⟨fun z hxz hloop => ?_, fun z hxz => ?_⟩
  · rcases hrest z hxz with rfl | hz
    · -- what comes back to the array comes back to its elements
      obtain ⟨y', hxy', hback⟩ := Relation.TransGen.head'_iff.1 hloop
      cases hxy.unique hxy'
      exact h.acyclic y .refl (.tail' hback hxy)
    · exact h.acyclic z hz hloop
  · rcases hrest z hxz with rfl | hz
    · obtain ⟨r, info, inner, hr, hbody, htype, hy⟩ := hxy
      exact ⟨r, info, hr, hbody, by rw [htype]; exact ⟨y, hy⟩⟩
    · exact h.refers z hz

/-! ## Finding the template -/

section

variable {info : PropertyInfo} {depth : Nat}

/-- A type other than an array has a kind if it refers to what is there. -/
theorem template_of_refers (depth : Nat) (hbody : r.body = .property info)
    (harray : ∀ inner, info.type ≠ .array inner) (hrefers : l.Refers x info.type) :
    ∃ kind, l.HasKind x info.type kind ∧ l.plain.template (depth + 1) x r =
      .ok ⟨r.name, kind, max info.arrayDim.toUInt32 1⟩ := by
  rw [Access.template]
  dsimp only [access_record, access_resolve]
  rw [hbody]
  dsimp only
  generalize info.type = type at *
  cases type with
  | array inner => exact absurd rfl (harray inner)
  | object target =>
    obtain ⟨name, hname⟩ := hrefers
    refine ⟨_, .object hname, ?_⟩
    dsimp only
    rw [access_objectFullName, Tables.objectFullName_eq_ok.2 hname]
    rfl
  | struct target =>
    obtain ⟨name, hname⟩ := hrefers
    refine ⟨_, .struct hname, ?_⟩
    dsimp only
    rw [access_objectFullName, Tables.objectFullName_eq_ok.2 hname]
    rfl
  | byte _ => exact ⟨_, .byte, rfl⟩
  | int => exact ⟨_, .int, rfl⟩
  | bool => exact ⟨_, .bool, rfl⟩
  | float => exact ⟨_, .float, rfl⟩
  | classRef _ _ => exact ⟨_, .classRef, rfl⟩
  | name => exact ⟨_, .name, rfl⟩
  | str => exact ⟨_, .str, rfl⟩
  | string => exact ⟨_, .string, rfl⟩
  | delegate _ => exact ⟨_, .delegate, rfl⟩
  | map _ _ => exact ⟨_, .map, rfl⟩
  | fixedArray _ _ => exact ⟨_, .fixedArray, rfl⟩
  | pointer => exact ⟨_, .pointer, rfl⟩

/-- The template of an array is made from that of its elements. -/
theorem template_of_array {inner : ObjectRef} {s : FieldRecord} {t : FieldTemplate}
    (hbody : r.body = .property info) (htype : info.type = .array inner)
    (hy : l.resolve x inner = .ok (some y)) (hs : l.recordAt y = .ok s)
    (ht : l.plain.template depth y s = .ok t) :
    l.plain.template (depth + 1) x r =
      .ok ⟨r.name, .array t.name t.kind t.arrayDim, max info.arrayDim.toUInt32 1⟩ := by
  rw [Access.template]
  dsimp only [access_record, access_resolve]
  rw [hbody]
  dsimp only
  rw [htype]
  dsimp only
  rw [hy, except_ok_bind]
  dsimp only
  rw [hs, except_ok_bind, ht]
  rfl

/-- Elements are followed far enough. The induction keeps the properties that have led to this one,
which are all different. -/
theorem Typed.exists_template (hcount : l.source.Counted) (path : List Located) (depth : Nat)
    (hx : l.Found x) (h : l.Typed x) (hpath : path.Nodup)
    (hled : ∀ y ∈ path, l.Holds y ∧ Relation.TransGen l.ElementOf y x)
    (hdepth : l.source.exportCount < path.length + depth) :
    ∃ r t, l.recordAt x = .ok r ∧ l.plain.template depth x r = .ok t ∧ l.Describes x t := by
  induction depth generalizing x path with
  | zero =>
    have hlength := length_le_exportCount hcount hpath fun y hy => (hled y hy).1
    omega
  | succ depth ih =>
    obtain ⟨r, info, hr, hbody, hrefers⟩ := h.refers x .refl
    by_cases harray : ∃ inner, info.type = .array inner
    · obtain ⟨inner, htype⟩ := harray
      rw [htype] at hrefers
      obtain ⟨y, hy⟩ := hrefers
      have hxy : l.ElementOf x y := ⟨r, info, inner, hr, hbody, htype, hy⟩
      have hnew : x ∉ path := fun hmem => h.acyclic x .refl (hled x hmem).2
      obtain ⟨s, t, hs, ht, s', info', hs', hbody', hname, hkind, hdim⟩ :=
        ih (x :: path) (hx.element hxy) (h.element hxy) (List.nodup_cons.2 ⟨hnew, hpath⟩)
          (List.forall_mem_cons.2 ⟨⟨hx.holds hr, .single hxy⟩,
            fun z hz => ⟨(hled z hz).1, (hled z hz).2.tail hxy⟩⟩)
          (by rw [List.length_cons]; omega)
      refine ⟨r, _, hr, template_of_array hbody htype hy hs ht, r, info, hr, hbody, rfl, ?_, rfl⟩
      rw [htype, hname, hdim]
      exact .array hy hs' hbody' hkind
    · obtain ⟨kind, hkind, ht⟩ := template_of_refers depth hbody
        (fun inner htype => harray ⟨inner, htype⟩) hrefers
      exact ⟨r, _, hr, ht, r, info, hr, hbody, rfl, hkind, rfl⟩

/-- A property has a template. -/
theorem Typed.template_eq (hcount : l.source.Counted) (hx : l.Found x) (h : l.Typed x)
    (hr : l.recordAt x = .ok r) :
    ∃ t, l.plain.template (l.source.exportCount + 1) x r = .ok t ∧ l.Describes x t := by
  obtain ⟨s, t, hs, ht, hdescribes⟩ := h.exists_template hcount []
    (l.source.exportCount + 1) hx List.nodup_nil nofun (by simp)
  cases hr.symm.trans hs
  exact ⟨t, ht, hdescribes⟩

end

end Library

end UnrealPackage
