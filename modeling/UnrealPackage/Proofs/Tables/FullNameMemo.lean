import UnrealPackage.Proofs.Binary.Reads
import UnrealPackage.Proofs.Tables.Names
import UnrealPackage.Proofs.Text.Dotted
import UnrealPackage.Tables.FullNameMemo
/-!
# Full names asked again

A memo of full names is `Sound` if the tables give the same names. Questions that look into such a
memo are answered as the tables answer them, and leave a sound memo (`Remembering.Agrees`).

An export is found by any spelling of its name (`Tables.findExport?_congr`).
-/

namespace UnrealPackage

/-! ## Spellings -/

namespace Tables

/-- Names that differ in case go on the same way, up to case, behind the name of the package. -/
theorem withoutPackage?_map_foldCase (t : Tables) {name name' : String}
    (h : foldCase name = foldCase name') :
    (t.withoutPackage? name).map foldCase = (t.withoutPackage? name').map foldCase := by
  have hsplit := splitFirstDot?_foldCase name
  rw [h, splitFirstDot?_foldCase name'] at hsplit
  rw [withoutPackage?, withoutPackage?]
  cases hcut : splitFirstDot? name with
  | none =>
    rw [hcut] at hsplit
    rw [Option.map_eq_none_iff.1 hsplit]
  | some parts =>
    obtain ⟨head, rest⟩ := parts
    rw [hcut] at hsplit
    obtain ⟨⟨head', rest'⟩, hcut', hparts⟩ := Option.map_eq_some_iff.1 hsplit
    obtain ⟨hhead, hrest⟩ := Prod.mk.inj hparts
    have hsame : sameName head' t.package = sameName head t.package := by
      rw [sameName, sameName, hhead]
    rw [hcut']
    dsimp only
    rw [hsame]
    split
    · exact congrArg some hrest.symm
    · rfl

/-- An export bears a name in any case of its letters. -/
theorem exportBears_congr (t : Tables) {name name' : String} (h : foldCase name = foldCase name') :
    t.exportBears name = t.exportBears name' := by
  have hany : ∀ inner found, Option.any (sameName inner) found =
      (Option.map foldCase found).any (foldCase inner == ·) := by
    intro inner found
    cases found <;> rfl
  funext index
  simp only [exportBears, sameName, h, hany, t.withoutPackage?_map_foldCase h]

theorem findExport?_congr (t : Tables) {name name' : String} (h : foldCase name = foldCase name') :
    t.findExport? name = t.findExport? name' := by
  rw [findExport?, findExport?, t.exportBears_congr h]

end Tables

/-! ## Answers with a memo -/

/-- Whether the full names of a memo are those that the tables give. -/
def FullNameMemo.Sound (t : Tables) (memo : FullNameMemo) : Prop :=
  ∀ r name, (r, name) ∈ memo.known → t.innerFullName r = .ok name

theorem FullNameMemo.sound_empty (t : Tables) : FullNameMemo.empty.Sound t :=
  nofun

namespace Remembering

variable {α β : Type} {t : Tables}

/-- Whether a question is answered in the same way with any sound memo, and leaves one. -/
structure Agrees (t : Tables) (question : Remembering α) (answer : Except Error α) : Prop where
  answer_eq : ∀ memo : FullNameMemo, memo.Sound t → Prod.fst <$> question memo = answer
  sound : ∀ (memo : FullNameMemo) a after, memo.Sound t → question memo = .ok (a, after) →
    after.Sound t

namespace Agrees

/-- Questions that agree with their answers go on agreeing if what follows does. -/
theorem bind {question : Remembering α} {answer : Except Error α} {next : α → Remembering β}
    {f : α → Except Error β} (h : Agrees t question answer) (hf : ∀ a, Agrees t (next a) (f a)) :
    Agrees t (question >>= next) (answer >>= f) := by
  constructor
  · intro memo hmemo
    rw [← h.answer_eq memo hmemo]
    change Prod.fst <$> (question memo >>= fun p => next p.1 p.2) = _
    cases hq : question memo with
    | error e => rfl
    | ok p => exact (hf p.1).answer_eq p.2 (h.sound memo p.1 p.2 hmemo hq)
  · intro memo b after hmemo hrun
    obtain ⟨a, middle, hq, hnext⟩ := stateT_bind_eq_ok.1 hrun
    exact (hf a).sound middle b after (h.sound memo a middle hmemo hq) hnext

theorem lift (answer : Except Error α) : Agrees t (liftM answer) answer := by
  cases answer with
  | error e => exact ⟨fun _ _ => rfl, nofun⟩
  | ok a => exact ⟨fun _ _ => rfl, fun memo _ _ hmemo hrun => by cases hrun; exact hmemo⟩

theorem pure (a : α) : Agrees t (pure a) (pure a) :=
  lift (.ok a)

end Agrees

/-- The full name of an object is looked up, else found and kept. -/
theorem innerFullName_eq {r : ObjectRef} (hr : ¬r.isNone) (memo : FullNameMemo) :
    innerFullName t r memo = match memo.known.lookup r with
      | some name => .ok (name, memo)
      | none => (fun name => (name, ⟨(r, name) :: memo.known⟩)) <$> t.innerFullName r := by
  rw [innerFullName, if_neg hr]
  change (match memo.known.lookup r with
    | some name => pure name
    | none => do
      let name ← liftM (t.innerFullName r)
      modify fun memo => ⟨(r, name) :: memo.known⟩
      pure name : Remembering String) memo = _
  cases memo.known.lookup r with
  | some name => rfl
  | none => cases t.innerFullName r <;> rfl

/-- The full name in a package is remembered as it is answered. -/
theorem agrees_innerFullName (t : Tables) (r : ObjectRef) :
    Agrees t (innerFullName t r) (t.innerFullName r) := by
  by_cases hr : r.isNone
  · rw [innerFullName, Tables.innerFullName, if_pos hr, if_pos hr]
    exact .pure _
  constructor
  · intro memo hmemo
    rw [innerFullName_eq hr]
    cases hlookup : memo.known.lookup r with
    | some name => exact (hmemo r name (mem_of_lookup hlookup)).symm
    | none => cases t.innerFullName r <;> rfl
  · intro memo name after hmemo hrun
    rw [innerFullName_eq hr] at hrun
    cases hlookup : memo.known.lookup r with
    | some name =>
      rw [hlookup] at hrun
      cases hrun
      exact hmemo
    | none =>
      rw [hlookup] at hrun
      cases hname : t.innerFullName r with
      | error e =>
        rw [hname] at hrun
        cases hrun
      | ok found =>
        rw [hname] at hrun
        cases hrun
        exact fun r' name' hmem => (List.mem_cons.1 hmem).elim
          (fun hnew => by cases hnew; exact hname) (hmemo r' name')

theorem agrees_exportFullName (t : Tables) (index : Nat) :
    Agrees t (exportFullName t index) (t.exportFullName index) :=
  (Agrees.lift _).bind fun _ => (agrees_innerFullName t _).bind fun _ => .pure _

theorem agrees_importFullName (t : Tables) (index : Nat) :
    Agrees t (importFullName t index) (t.importFullName index) :=
  (Agrees.lift _).bind fun _ => agrees_innerFullName t _

/-- The full name of an object is remembered as it is answered. -/
theorem agrees_objectFullName (t : Tables) (r : ObjectRef) :
    Agrees t (objectFullName t r) (t.objectFullName r) := by
  rw [objectFullName, Tables.objectFullName]
  cases r.target with
  | nothing => exact .pure _
  | exported index => exact agrees_exportFullName t index
  | imported index => exact agrees_importFullName t index

/-- The full name of an object's class is remembered as it is answered. -/
theorem agrees_objectClassFullName (t : Tables) (r : ObjectRef) :
    Agrees t (objectClassFullName t r) (t.objectClassFullName r) := by
  refine (Agrees.lift _).bind fun entry => ?_
  rcases entry with _ | ⟨_, e⟩ | ⟨i, _⟩
  · exact .pure _
  · dsimp only
    split
    · exact .pure _
    · exact agrees_objectFullName t e.type
  · exact .lift _

/-- A condition on what was found, which fails where nothing was. -/
theorem agrees_attempt {question : Remembering α} {answer : Except Error α}
    {asked : Remembering Bool} {holds : Bool} (p : α → Bool) (h : Agrees t question answer)
    (hfound : ∀ memo a after, question memo = .ok (a, after) → asked memo = .ok (p a, after))
    (hnone : ∀ memo e, question memo = .error e → asked memo = .ok (false, memo))
    (hp : ∀ a, answer = .ok a → holds = p a) (hfalse : ∀ e, answer = .error e → holds = false) :
    Agrees t asked (pure holds) := by
  constructor
  · intro memo hmemo
    have hanswer := h.answer_eq memo hmemo
    cases hquestion : question memo with
    | error e =>
      rw [hquestion] at hanswer
      rw [hnone memo e hquestion, hfalse e hanswer.symm]
      rfl
    | ok found =>
      rw [hquestion] at hanswer
      rw [hfound memo found.1 found.2 hquestion, hp found.1 hanswer.symm]
      rfl
  · intro memo held after hmemo hrun
    cases hquestion : question memo with
    | error e =>
      rw [hnone memo e hquestion] at hrun
      cases hrun
      exact hmemo
    | ok found =>
      rw [hfound memo found.1 found.2 hquestion] at hrun
      cases hrun
      exact h.sound memo found.1 found.2 hmemo hquestion

theorem agrees_exportBears (t : Tables) (name : String) (index : Nat) :
    Agrees t (exportBears t name index) (pure (t.exportBears name index)) :=
  agrees_attempt _ (agrees_innerFullName t (.ofExport index))
    (fun memo inner after h => by rw [exportBears, h]) (fun memo e h => by rw [exportBears, h])
    (fun inner h => by rw [Tables.exportBears, h]) (fun e h => by rw [Tables.exportBears, h])

/-- The first of some that meet a condition is found if the condition is asked for. -/
theorem agrees_findM? {p : α → Remembering Bool} {q : α → Bool}
    (h : ∀ x, Agrees t (p x) (pure (q x))) (xs : List α) :
    Agrees t (xs.findM? p) (pure (xs.find? q)) := by
  induction xs with
  | nil => exact .pure none
  | cons x xs ih =>
    have hfirst : Agrees t ((x :: xs).findM? p) ((pure (q x) : Except Error Bool) >>= fun
        | true => pure (some x)
        | false => pure (xs.find? q)) := by
      refine (h x).bind fun found => ?_
      cases found with
      | true => exact .pure _
      | false => exact ih
    rw [pure_bind] at hfirst
    rw [List.find?_cons]
    cases hx : q x with
    | true =>
      rw [hx] at hfirst
      exact hfirst
    | false =>
      rw [hx] at hfirst
      exact hfirst

theorem agrees_findExport? (t : Tables) (name : String) :
    Agrees t (findExport? t name) (pure (t.findExport? name)) :=
  agrees_findM? (agrees_exportBears t name) _

theorem agrees_findImport? (t : Tables) (fullName : String) :
    Agrees t (findImport? t fullName) (pure (t.findImport? fullName)) :=
  agrees_findM? (fun i => agrees_attempt _ (agrees_importFullName t i)
    (fun memo found after h => by rw [importBears, h]) (fun memo e h => by rw [importBears, h])
    (fun found h => by rw [h]) (fun e h => by rw [h])) _

/-- The reference for a name is found with the full names that are remembered as without them. -/
theorem agrees_referenceTo (t : Tables) (name : String) :
    Agrees t (referenceTo t name) (pure (t.referenceTo name)) := by
  have hanswer : (pure (t.referenceTo name) : Except Error ObjectRef) =
      pure (t.findImport? name) >>= fun found =>
        pure (found.elim ((t.findExport? name).elim .none .ofExport) .ofImport) := by
    rw [Tables.referenceTo]
    cases t.findImport? name <;> cases t.findExport? name <;> rfl
  rw [hanswer]
  refine (agrees_findImport? t name).bind fun found => ?_
  cases found with
  | some i => exact .pure _
  | none =>
    have hexport : (pure ((t.findExport? name).elim .none .ofExport) : Except Error ObjectRef) =
        pure (t.findExport? name) >>= fun found => pure (found.elim .none .ofExport) :=
      rfl
    rw [Option.elim_none, hexport]
    refine (agrees_findExport? t name).bind fun found => ?_
    cases found <;> exact .pure _

/-- Whatever a question is answered, it leaves a sound memo. -/
theorem Agrees.sound_leaves {question : Remembering α} {answer : Except Error α}
    (h : Agrees t question answer) {memo : FullNameMemo} (hmemo : memo.Sound t) :
    (leaves question memo).Sound t := by
  rw [leaves]
  split
  · next a after hrun => exact h.sound memo a after hmemo hrun
  · exact hmemo

end Remembering

namespace FullNameMemo

open Remembering

variable {t : Tables} {memo : FullNameMemo}

/-- A question leaves a sound memory sound. -/
theorem Sound.ask (h : memo.Sound t) (question : NameQuestion) : (memo.ask t question).Sound t := by
  cases question with
  | inner r => exact (agrees_innerFullName t r).sound_leaves h
  | ofExport index => exact (agrees_exportFullName t index).sound_leaves h
  | ofImport index => exact (agrees_importFullName t index).sound_leaves h
  | ofObject r => exact (agrees_objectFullName t r).sound_leaves h
  | ofClass r => exact (agrees_objectClassFullName t r).sound_leaves h
  | findExport name => exact (agrees_findExport? t name).sound_leaves h
  | findImport fullName => exact (agrees_findImport? t fullName).sound_leaves h
  | reference name => exact (agrees_referenceTo t name).sound_leaves h
  | forget => exact sound_empty t

/-- Earlier questions leave a sound memo. -/
theorem sound_after (t : Tables) (earlier : List NameQuestion) : (after t earlier).Sound t := by
  rw [after]
  have hstart := sound_empty t
  generalize empty = memo at hstart
  induction earlier generalizing memo with
  | nil => exact hstart
  | cons question earlier ih => exact ih _ (hstart.ask question)

end FullNameMemo

end UnrealPackage
