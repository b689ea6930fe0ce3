import UnrealPackage.Text.Case
import UnrealPackage.Text.Dotted
/-!
# Dotted names taken apart and joined

A name has at least one part, and its parts joined with dots are the name again
(`dotted_segments`). Joining does not depend on the case of the parts (`foldCase_dotted`), nor does
cutting at the first dot on the case of the name (`splitFirstDot?_foldCase`). What is cut there is
what was joined, if the first part has no dot (`splitFirstDot?_eq_some`).
-/

namespace UnrealPackage

/-! ## Parts -/

/-- There is at least one stretch. -/
theorem splitOnChar_ne_nil (sep : Char) (cs : List Char) : splitOnChar sep cs ≠ [] := by
  cases cs with
  | nil => exact List.cons_ne_nil _ _
  | cons c cs =>
    rw [splitOnChar]
    split
    · exact List.cons_ne_nil _ _
    · split <;> exact List.cons_ne_nil _ _

theorem segments_ne_nil (name : String) : segments name ≠ [] := by
  simp only [segments, ne_eq, List.map_eq_nil_iff, splitOnChar_ne_nil, not_false_eq_true]

/-- Without a separator there is nothing to split. -/
theorem splitOnChar_of_not_mem {sep : Char} {cs : List Char} (h : sep ∉ cs) :
    splitOnChar sep cs = [cs] := by
  induction cs with
  | nil => rfl
  | cons c cs ih =>
    rw [List.mem_cons, not_or] at h
    obtain ⟨hc, hcs⟩ := h
    rw [splitOnChar, if_neg (Ne.symm hc), ih hcs]

/-- A name without a dot is its own only part. -/
theorem segments_of_not_mem {name : String} (h : '.' ∉ name.toList) : segments name = [name] := by
  rw [segments, splitOnChar_of_not_mem h, List.map_singleton, String.ofList_toList]

/-- A name is its last part behind the others. -/
theorem segments_dropLast_getLastD (name : String) :
    (segments name).dropLast ++ [(segments name).getLastD ""] = segments name := by
  have hne := segments_ne_nil name
  rw [List.getLastD_eq_getLast?, List.getLast?_eq_some_getLast hne]
  exact List.dropLast_concat_getLast hne

theorem getLastD_mem_segments (name : String) : (segments name).getLastD "" ∈ segments name := by
  have hlast := segments_dropLast_getLastD name
  have hmem := List.mem_append_right (segments name).dropLast
    (List.mem_singleton_self ((segments name).getLastD ""))
  rwa [hlast] at hmem

/-! ## Joined parts -/

/-- The words between separators, joined with separators, are what was split. -/
theorem intercalate_splitOnChar (sep : Char) (cs : List Char) :
    [sep].intercalate (splitOnChar sep cs) = cs := by
  induction cs with
  | nil => rfl
  | cons c cs ih =>
    rw [splitOnChar]
    cases hwords : splitOnChar sep cs with
    | nil => exact absurd hwords (splitOnChar_ne_nil sep cs)
    | cons first words =>
      rw [hwords] at ih
      split
      · next hsep =>
        rw [List.intercalate_cons_cons, ih, hsep]
        rfl
      · cases words with
        | nil =>
          rw [List.intercalate_singleton] at ih ⊢
          rw [ih]
        | cons second words =>
          rw [List.intercalate_cons_cons] at ih ⊢
          rw [← ih]
          rfl

/-- The parts of a name, joined with dots, are the name. -/
theorem dotted_segments (name : String) : dotted (segments name) = name := by
  rw [dotted, segments, List.map_map]
  have hid : String.toList ∘ String.ofList = id := funext fun cs => String.toList_ofList
  rw [hid, List.map_id, intercalate_splitOnChar, String.ofList_toList]

/-- A change of each item leaves joined words joined. -/
theorem map_intercalate {α β : Type} (f : α → β) (sep : List α) (words : List (List α)) :
    (sep.intercalate words).map f = (sep.map f).intercalate (words.map (List.map f)) := by
  induction words with
  | nil => rfl
  | cons word words ih =>
    cases words with
    | nil => simp only [List.intercalate_singleton, List.map_cons, List.map_nil]
    | cons second words =>
      rw [List.intercalate_cons_cons, List.map_append, List.map_append, ih]
      simp only [List.map_cons, List.intercalate_cons_cons]

/-- Dots have no case. -/
theorem foldCase_dotted (parts : List String) :
    foldCase (dotted parts) = dotted (parts.map foldCase) := by
  rw [foldCase, dotted, dotted, String.toList_ofList, map_intercalate, List.map_map, List.map_map]
  have hfold : String.toList ∘ foldCase = List.map Char.toLower ∘ String.toList :=
    funext fun s => String.toList_ofList
  rw [hfold]
  rfl

/-! ## Case -/

/-- Only a dot has a dot for its small letter. -/
theorem bne_dot_comp_toLower : (· != '.') ∘ Char.toLower = (· != '.') := by
  funext c
  have hdot : c.toLower = '.' ↔ c = '.' := by
    by_cases hupper : c.val ≥ 'A'.val ∧ c.val ≤ 'Z'.val
    · refine ⟨fun h => ?_, ?_⟩
      · have hsmall : c.toLower = ⟨c.val + ('a'.val - 'A'.val), _⟩ := dif_pos hupper
        have hsum : (c.val + ('a'.val - 'A'.val)).toNat = 46 :=
          congrArg (fun small : Char => small.val.toNat) (hsmall.symm.trans h)
        rw [UInt32.toNat_add] at hsum
        have hshift : ('a'.val - 'A'.val).toNat = 32 := rfl
        have hleast : 65 ≤ c.val.toNat := hupper.1
        have hmost : c.val.toNat ≤ 90 := hupper.2
        omega
      · rintro rfl
        exact absurd hupper.1 (by decide)
    · have hsame : c.toLower = c := dif_neg hupper
      rw [hsame]
  rw [Function.comp_apply, Bool.eq_iff_iff, bne_iff_ne, bne_iff_ne, ne_eq, ne_eq, hdot]

theorem foldCase_firstSegment (name : String) :
    foldCase (firstSegment name) = firstSegment (foldCase name) := by
  rw [foldCase, firstSegment, firstSegment, foldCase, String.toList_ofList, String.toList_ofList,
    List.takeWhile_map, bne_dot_comp_toLower]

/-- A name is cut at the same dot in any case. -/
theorem splitFirstDot?_foldCase (name : String) :
    splitFirstDot? (foldCase name) = (splitFirstDot? name).map (Prod.map foldCase foldCase) := by
  have htail : (foldCase name).toList.dropWhile (· != '.') =
      (name.toList.dropWhile (· != '.')).map Char.toLower := by
    rw [foldCase, String.toList_ofList, List.dropWhile_map, bne_dot_comp_toLower]
  rw [splitFirstDot?, splitFirstDot?, ← foldCase_firstSegment, htail]
  cases name.toList.dropWhile (· != '.') with
  | nil => rfl
  | cons dot rest =>
    simp only [List.map_cons, Option.map_some, Prod.map_apply, foldCase, String.toList_ofList]

/-! ## The first part -/

theorem toList_dotted_pair (head rest : String) :
    (dotted [head, rest]).toList = head.toList ++ '.' :: rest.toList := by
  rw [dotted, String.toList_ofList]
  simp [List.intercalate_cons_cons]

/-- A name is cut in front of what follows a first part without a dot. -/
theorem splitFirstDot?_eq_some {name head rest : String} :
    splitFirstDot? name = some (head, rest) ↔ '.' ∉ head.toList ∧ name = dotted [head, rest] := by
  rw [splitFirstDot?]
  constructor
  · intro h
    have hname := List.takeWhile_append_dropWhile (p := (· != '.')) (l := name.toList)
    cases htail : name.toList.dropWhile (· != '.') with
    | nil =>
      rw [htail] at h
      cases h
    | cons dot tail =>
      rw [htail] at h hname
      obtain ⟨rfl, rfl⟩ := Prod.mk.inj (Option.some.inj h)
      have hdot : dot = '.' := by
        have hfirst := List.head?_dropWhile_not (· != '.') name.toList
        rw [htail] at hfirst
        simpa using hfirst
      refine ⟨fun hmem => ?_, String.toList_inj.1 ?_⟩
      · rw [firstSegment, String.toList_ofList] at hmem
        simpa using List.all_eq_true.1 List.all_takeWhile _ hmem
      · rw [toList_dotted_pair, firstSegment, String.toList_ofList, String.toList_ofList]
        rw [hdot] at hname
        exact hname.symm
  · rintro ⟨hdot, rfl⟩
    have hplain : ∀ c ∈ head.toList, (c != '.') = true := fun c hc =>
      bne_iff_ne.2 fun h => hdot (h ▸ hc)
    rw [firstSegment, toList_dotted_pair, List.dropWhile_append_of_pos hplain,
      List.takeWhile_append_of_pos hplain]
    simp

/-- A first part without a dot is found again. -/
theorem firstSegment_dotted {head rest : String} (h : '.' ∉ head.toList) :
    firstSegment (dotted [head, rest]) = head := by
  have hplain : ∀ c ∈ head.toList, (c != '.') = true := fun c hc =>
    bne_iff_ne.2 fun hc' => h (hc' ▸ hc)
  rw [firstSegment, toList_dotted_pair, List.takeWhile_append_of_pos hplain]
  simp

end UnrealPackage
