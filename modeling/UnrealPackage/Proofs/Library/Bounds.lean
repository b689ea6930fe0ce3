import UnrealPackage.Library.Session
import UnrealPackage.Proofs.Library.Consult
import UnrealPackage.Proofs.Library.Source
/-!
# Bounds on the answers of a session

The answer to a question depends on the memo, and so does whether it is given up. `Within` bounds it
from both sides by answers that depend on no memo, as long as the memo has a property that the
question keeps: what is not given up below is the answer, and what is answered is not given up
above.

`Asks` says so of an access whose fields lie between `low` and `high`, and then it holds of all that
is made from it, with the access of the library to `low` and to `high` on the two sides
(`Asks.flatten`). An access that has no memo is one of them, and so flattened fields are monotone in
the fields that they are made of (`Library.flatten_below`).
-/

namespace UnrealPackage

variable {α β : Type}

namespace Session

/-- The answer to a question. -/
def answer (question : Session α) (memo : Memo) : Except Error α :=
  match question memo with
  | .ok (a, _) => .ok a
  | .error failure => .error failure.error

/-- The memo after a question. -/
def after (question : Session α) (memo : Memo) : Memo :=
  match question memo with
  | .ok (_, memo) => memo
  | .error failure => failure.memo

section

variable {question : Session α} {next : α → Session β} {memo : Memo}

theorem get_bind (next : Memo → Session α) (memo : Memo) :
    (get >>= next) memo = next memo memo :=
  rfl

theorem attempt_eq (question : Session α) (memo : Memo) :
    attempt question memo = .ok (question.answer memo, question.after memo) := by
  rw [attempt, answer, after]
  cases question memo <;> rfl

/-- A question made of two is answered by the second if the first has an answer, with what that one
has left in memory. -/
theorem answer_bind (question : Session α) (next : α → Session β) (memo : Memo) :
    (question >>= next).answer memo =
      question.answer memo >>= fun a => (next a).answer (question.after memo) := by
  change answer (fun memo => question memo >>= fun p => next p.1 p.2) memo = _
  simp only [answer, after]
  cases question memo <;> rfl

theorem answer_map (f : α → β) (question : Session α) (memo : Memo) :
    (f <$> question).answer memo = f <$> question.answer memo := by
  change answer (fun memo => question memo >>= fun p => pure (f p.1, p.2)) memo = _
  simp only [answer]
  cases question memo <;> rfl

/-- If the first question has an answer, what is in memory afterwards is what the second leaves. -/
theorem after_bind_ok {a : α} (h : question.answer memo = .ok a) (next : α → Session β) :
    (question >>= next).after memo = (next a).after (question.after memo) := by
  change after (fun memo => question memo >>= fun p => next p.1 p.2) memo = _
  simp only [answer, after] at h ⊢
  cases hq : question memo with
  | ok p =>
    rw [hq] at h
    cases h
    rfl
  | error failure =>
    rw [hq] at h
    cases h

/-- If the first question fails, the second leaves nothing in memory. -/
theorem after_bind_error {e : Error} (h : question.answer memo = .error e) (next : α → Session β) :
    (question >>= next).after memo = question.after memo := by
  change after (fun memo => question memo >>= fun p => next p.1 p.2) memo = _
  simp only [answer, after] at h ⊢
  cases hq : question memo with
  | ok p =>
    rw [hq] at h
    cases h
  | error failure => rfl

end

/-! ## Bounds -/

/-- Whether a question keeps a property of the memo, and where it holds, is answered between `low`
and `high`. -/
def Within (I : Memo → Prop) (question : Session α) (low high : Except Error α) : Prop :=
  ∀ memo, I memo → I (question.after memo) ∧ Below low (question.answer memo) ∧
    Below (question.answer memo) high

namespace Within

variable {I : Memo → Prop} {question : Session α} {low high low' high' : Except Error α}

theorem mono (h : Within I question low high) (hlow : Below low' low) (hhigh : Below high high') :
    Within I question low' high' := by
  intro memo hmemo
  obtain ⟨hafter, hbelow, habove⟩ := h memo hmemo
  exact ⟨hafter, hlow.trans hbelow, habove.trans hhigh⟩

/-- A second question that lies within its bounds for every answer that the first may have keeps
both within theirs. -/
theorem bind {next : α → Session β} {f g : α → Except Error β} (h : Within I question low high)
    (hnext : ∀ a, high = .ok a → Within I (next a) (f a) (g a)) :
    Within I (question >>= next) (low >>= f) (high >>= g) := by
  intro memo hmemo
  obtain ⟨hafter, hbelow, habove⟩ := h memo hmemo
  rw [answer_bind]
  refine ⟨?_, hbelow.bind fun a ha => ?_, habove.bind fun a ha => ?_⟩
  · cases ha : question.answer memo with
    | ok a =>
      rw [after_bind_ok ha]
      exact (hnext a (habove.eq_ok ha) _ hafter).1
    | error e =>
      rw [after_bind_error ha]
      exact hafter
  · exact (hnext a (habove.eq_ok ha) _ hafter).2.1
  · exact (hnext a ha _ hafter).2.2

theorem pure (a : α) : Within I (pure a) (pure a) (pure a) :=
  fun _ hmemo => ⟨hmemo, .refl _, .refl _⟩

/-- A step with a known answer is gone on from. -/
theorem bind_known {a : α} {next : α → Session β} {low high : Except Error β}
    (h : Within I question (.ok a) (.ok a)) (hnext : Within I (next a) low high) :
    Within I (question >>= next) low high :=
  h.bind (f := fun _ => low) (g := fun _ => high) fun _ ha => by cases ha; exact hnext

/-- A step that may fail is gone on from in either case. -/
theorem bind_attempt {next : Except Error α → Session β} {low' high' : Except Error β}
    (h : Within I question low high)
    (hnext : ∀ found, Below low found → Below found high → Within I (next found) low' high') :
    Within I (attempt question >>= next) low' high' := by
  intro memo hmemo
  obtain ⟨hafter, hbelow, habove⟩ := h memo hmemo
  have hrun : (attempt question >>= next) memo =
      next (question.answer memo) (question.after memo) := by
    change (attempt question memo >>= fun p => next p.1 p.2) = _
    rw [attempt_eq]
    rfl
  have hrest := hnext _ hbelow habove _ hafter
  simp only [answer, after, hrun] at hrest ⊢
  exact hrest

theorem map (h : Within I question low high) (f : α → β) :
    Within I (f <$> question) (f <$> low) (f <$> high) := by
  rw [map_eq_pure_bind, map_eq_pure_bind, map_eq_pure_bind]
  exact h.bind fun a _ => .pure (f a)

/-- What needs no memo is answered without one. -/
theorem lift (h : Below low high) : Within I (liftM low) low high := by
  intro memo hmemo
  cases low with
  | ok a => exact ⟨hmemo, .refl _, h⟩
  | error e => exact ⟨hmemo, .refl _, h⟩

theorem raise (e : Error) :
    Within I (Error.raise e : Session α) (Error.raise e) (Error.raise e) :=
  lift (.refl _)

/-- Questions that lie within their bounds one by one do so together. -/
theorem mapM {f : α → Session β} {g h : α → Except Error β} {xs : List α}
    (hf : ∀ x ∈ xs, Within I (f x) (g x) (h x)) :
    Within I (xs.mapM f) (xs.mapM g) (xs.mapM h) := by
  induction xs with
  | nil => exact .pure []
  | cons x xs ih =>
    obtain ⟨hx, hxs⟩ := List.forall_mem_cons.1 hf
    rw [List.mapM_cons, List.mapM_cons, List.mapM_cons]
    exact hx.bind fun y _ => (ih hxs).bind fun ys _ => .pure (y :: ys)

/-- What a memo holds is bounded as what is found, if it is what is found. -/
theorem remembered {known : Memo → Option α} {keep : Memo → α → Memo}
    (h : Within I question low high) (hbelow : Below low high)
    (hknown : ∀ memo a, I memo → known memo = some a → high = .ok a)
    (hkeep : ∀ memo a, I memo → high = .ok a → I (keep memo a)) :
    Within I (remembered known question keep) low high := by
  intro memo hmemo
  cases hlookup : known memo with
  | some a =>
    have hrun : Session.remembered known question keep memo = .ok (a, memo) := by
      rw [Session.remembered, get_bind, hlookup]
      rfl
    obtain rfl := hknown memo a hmemo hlookup
    simp only [answer, after, hrun]
    exact ⟨hmemo, hbelow, .refl _⟩
  | none =>
    let kept : Session α := do
      let a ← question
      modify fun memo => keep memo a
      Pure.pure a
    have hrun : Session.remembered known question keep memo = kept memo := by
      rw [Session.remembered, get_bind, hlookup]
    have hkept : Within I kept (low >>= Pure.pure) (high >>= Pure.pure) :=
      h.bind fun a ha memo hmemo => ⟨hkeep memo a hmemo ha, .refl _, .refl _⟩
    rw [bind_pure, bind_pure] at hkept
    simp only [answer, after, hrun]
    exact hkept memo hmemo

end Within

end Session

/-! ## What is made from single objects -/

open Session

/-- Whether an access finds what the library has, and its fields lie between `low` and `high`. -/
structure Asks (l : Library) (I : Memo → Prop) (a : Access Session)
    (low high : Located → Except Error FieldRecord) : Prop where
  locate : ∀ fullName, Within I (a.locate fullName) (l.locate fullName) (l.locate fullName)
  resolve : ∀ x r, Within I (a.resolve x r) (l.resolve x r) (l.resolve x r)
  fullName : ∀ x, Within I (a.fullName x) x.fullName x.fullName
  objectFullName : ∀ (x : Located) r, Within I (a.objectFullName x r)
    (x.package.tables.objectFullName r) (x.package.tables.objectFullName r)
  record : ∀ x, l.Found x → Within I (a.record x) (low x) (high x)

/-- The supers of a struct lie in packages of the library. -/
theorem Library.found_of_superChain {l : Library} {record : Located → Except Error FieldRecord}
    {room : Nat} {x : Located} {chain : List (Located × FieldRecord)} (hx : l.Found x)
    (h : (l.access record).superChain room x = .ok chain) : ∀ level ∈ chain, l.Found level.1 := by
  induction room generalizing x chain with
  | zero =>
    obtain ⟨name, -, h⟩ := except_bind_eq_ok.1 h
    cases h
  | succ room ih =>
    obtain ⟨r, -, h⟩ := except_bind_eq_ok.1 h
    obtain ⟨next, hnext, h⟩ := except_bind_eq_ok.1 h
    cases next with
    | none =>
      cases h
      exact List.forall_mem_singleton.2 hx
    | some parent =>
      obtain ⟨supers, hsupers, h⟩ := except_bind_eq_ok.1 h
      cases h
      exact List.forall_mem_append.2
        ⟨ih (hx.resolve hnext) hsupers, List.forall_mem_singleton.2 hx⟩

namespace Asks

variable {l : Library} {I : Memo → Prop} {a : Access Session}
  {low high : Located → Except Error FieldRecord} {x : Located}

/-- The chain of supers is followed within the bounds of the records. -/
theorem superChain (h : Asks l I a low high) (room : Nat) (hx : l.Found x) :
    Within I (a.superChain room x) ((l.access low).superChain room x)
      ((l.access high).superChain room x) := by
  induction room generalizing x with
  | zero => exact (h.fullName x).bind fun name _ => .raise _
  | succ room ih =>
    refine (h.record x hx).bind fun r _ => (h.resolve x r.super).bind fun next hnext => ?_
    cases next with
    | none => exact .pure _
    | some parent => exact (ih (hx.resolve hnext)).bind fun supers _ => .pure _

/-- The template of a field is found within the bounds of the records. -/
theorem template (h : Asks l I a low high) (depth : Nat) (hx : l.Found x) (r : FieldRecord) :
    Within I (a.template depth x r) ((l.access low).template depth x r)
      ((l.access high).template depth x r) := by
  induction depth generalizing x r with
  | zero => exact .raise _
  | succ depth ih =>
    unfold Access.template
    cases r.body with
    | property info =>
      dsimp only
      cases info.type with
      | object target => exact ((h.objectFullName x target).map _).bind fun kind _ => .pure _
      | struct target => exact ((h.objectFullName x target).map _).bind fun kind _ => .pure _
      | array inner =>
        refine (h.resolve x inner).bind fun element hy => ?_
        cases element with
        | none => exact (Within.raise _).bind fun kind _ => .pure _
        | some y =>
          have hfound := hx.resolve hy
          exact (h.record y hfound).bind fun s _ => (ih hfound s).bind fun element _ =>
            (Within.pure _).bind fun kind _ => .pure _
      | byte | int | bool | float | classRef | name | str | string | delegate | map | fixedArray
      | pointer => exact (Within.pure _).bind fun kind _ => .pure _
    | struct _ | function _ _ | state _ _ | classType _ _ _ | enum _ | const _ => exact .raise _

/-- The list of a struct's fields is followed within the bounds of the records. -/
theorem fieldList (h : Asks l I a low high) (depth : Nat) (fullName : String) (room : Nat)
    {first : Option Located} (hfirst : ∀ x, first = some x → l.Found x) :
    Within I (a.fieldList depth fullName room first)
      ((l.access low).fieldList depth fullName room first)
      ((l.access high).fieldList depth fullName room first) := by
  induction room generalizing first with
  | zero =>
    cases first with
    | none => exact .pure []
    | some x => exact .raise _
  | succ room ih =>
    cases first with
    | none => exact .pure []
    | some x =>
      have hx := hfirst x rfl
      have hrest : ∀ (r : FieldRecord) (own : List FieldTemplate), Within I
          (do
            let next ← a.resolve x r.next
            let rest ← a.fieldList depth fullName room next
            pure (own ++ rest))
          (do
            let next ← l.resolve x r.next
            let rest ← (l.access low).fieldList depth fullName room next
            pure (own ++ rest))
          (do
            let next ← l.resolve x r.next
            let rest ← (l.access high).fieldList depth fullName room next
            pure (own ++ rest)) := by
        refine fun r own => (h.resolve x r.next).bind fun next hnext => ?_
        exact (ih fun y hy => hx.resolve (hy ▸ hnext)).bind fun rest _ => .pure _
      refine (h.record x hx).bind fun r _ => ?_
      split
      · exact ((h.template depth hx r).map _).bind fun own _ => hrest r own
      · exact (Within.pure []).bind fun own _ => hrest r own

/-- The own fields of a struct are found within the bounds of the records. -/
theorem ownFields (h : Asks l I a low high) (depth : Nat) (fullName : String) (hx : l.Found x)
    (r : FieldRecord) :
    Within I (a.ownFields depth fullName x r) ((l.access low).ownFields depth fullName x r)
      ((l.access high).ownFields depth fullName x r) := by
  unfold Access.ownFields
  cases r.body.structInfo? with
  | none => exact .raise _
  | some info =>
    exact (h.resolve x info.child).bind fun child hchild =>
      h.fieldList depth fullName _ fun y hy => hx.resolve (hy ▸ hchild)

/-- The fields of a struct with those of its supers are found within the bounds of the records. -/
theorem flatten (h : Asks l I a low high) (depth : Nat) (fullName : String) :
    Within I (a.flatten depth fullName) ((l.access low).flatten depth fullName)
      ((l.access high).flatten depth fullName) := by
  refine (h.locate fullName).bind fun x hx => ?_
  have hfound := Library.found_of_locate hx
  refine (h.superChain _ hfound).bind fun chain hchain => ?_
  refine (Within.mapM fun level hlevel => ?_).bind fun levels _ => .pure _
  exact h.ownFields depth fullName (Library.found_of_superChain hfound hchain level hlevel) _

/-! ### Questions about types -/

variable {record : Located → Except Error FieldRecord}

theorem field (h : Asks l I a record record) (fullName : String) :
    Within I (a.field fullName) ((l.access record).field fullName)
      ((l.access record).field fullName) :=
  (h.locate fullName).bind fun x hx => h.record x (Library.found_of_locate hx)

/-- The super of a class is told with the records that it needs. -/
theorem superClass (h : Asks l I a record record) (fullName : String) :
    Within I (a.superClass fullName) ((l.access record).superClass fullName)
      ((l.access record).superClass fullName) := by
  refine (h.locate fullName).bind fun x hx => ?_
  refine (h.record x (Library.found_of_locate hx)).bind fun r _ => ?_
  refine (h.resolve x r.super).bind fun parent _ => ?_
  cases parent with
  | none => exact .pure none
  | some parent => exact (h.fullName parent).map some

/-- Whether a class descends from another is told with the records that it needs. -/
theorem descends (h : Asks l I a record record) (start ancestor : String) (room : Nat)
    (name : String) : Within I (a.descends start ancestor room name)
      ((l.access record).descends start ancestor room name)
      ((l.access record).descends start ancestor room name) := by
  induction room generalizing name with
  | zero =>
    unfold Access.descends
    split
    · exact .pure true
    · exact .raise _
  | succ room ih =>
    unfold Access.descends
    split
    · exact .pure true
    · refine (h.superClass name).bind fun parent _ => ?_
      cases parent with
      | none => exact .pure false
      | some parent => exact ih parent

/-- The defaults of a class are told with the records and the properties that they need. -/
theorem classDefaults (h : Asks l I a record record)
    {read : Located → String → Nat → Session (List Property)}
    {properties : Located → String → Nat → Except Error (List Property)}
    (hread : ∀ x scope start,
      Within I (read x scope start) (properties x scope start) (properties x scope start))
    (fullName : String) :
    Within I (a.classDefaults read fullName)
      ((l.access record).classDefaults properties fullName)
      ((l.access record).classDefaults properties fullName) := by
  refine (h.locate fullName).bind fun x hx => ?_
  refine (h.record x (Library.found_of_locate hx)).bind fun r _ => ?_
  cases r.body with
  | classType _ _ info => exact hread x fullName info.defaultsStart
  | struct _ | function _ _ | state _ _ | property _ | enum _ | const _ => exact .raise _

/-- The lines of a function are told with the records and the statements that they need. -/
theorem disassemble (h : Asks l I a record record)
    {read : Located → StructInfo → Session (List Script.Expr)}
    {statements : Located → StructInfo → Except Error (List Script.Expr)}
    (hread : ∀ x info, Within I (read x info) (statements x info) (statements x info))
    (fullName : String) :
    Within I (a.disassemble read fullName)
      ((l.access record).disassemble statements fullName)
      ((l.access record).disassemble statements fullName) := by
  refine (h.locate fullName).bind fun x hx => ?_
  refine (h.record x (Library.found_of_locate hx)).bind fun r _ => ?_
  cases r.body.structInfo? with
  | none => exact .raise _
  | some info => exact (hread x info).bind fun script _ => .lift (.refl _)

end Asks

/-! ## Native functions -/

section

variable {l : Library} {I : Memo → Prop} {x : Located}
  {record? : Located → Session (Option FieldRecord)}
  {known : Located → Except Error (Option FieldRecord)}

/-- The native function that an export tells of is told with its record. -/
theorem within_nativeAt (h : Within I (record? x) (known x) (known x)) :
    Within I (nativeAt record? x) (nativeAt known x) (nativeAt known x) := by
  unfold nativeAt
  split
  · exact h.bind fun r _ => .pure _
  · exact .pure none

/-- The natives of a package, or of none, are told with the records of its exports. -/
theorem within_nativesIn {package? : Option Package}
    (h : ∀ x, some x.package = package? → Within I (record? x) (known x) (known x)) :
    Within I (nativesIn record? package?) (nativesIn known package?)
      (nativesIn known package?) := by
  cases package? with
  | none => exact .pure []
  | some p =>
    exact (Within.mapM fun index _ => within_nativeAt (h ⟨p, index⟩ rfl)).bind fun found _ =>
      .pure _

/-- The natives of some packages are told with the packages that can be found and the records of
their exports. -/
theorem within_nativesOf {package? : String → Session (Option Package)} (names : List String)
    (hrecord : ∀ x, l.Found x → Within I (record? x) (known x) (known x))
    (hpackage : ∀ name, Within I (package? name) (.ok (l.package name).toOption)
      (.ok (l.package name).toOption)) :
    Within I (nativesOf record? package? names)
      (nativesOf known (fun name => .ok (l.package name).toOption) names)
      (nativesOf known (fun name => .ok (l.package name).toOption) names) := by
  refine (Within.mapM fun name _ => ?_).bind fun found _ => .pure _
  refine (hpackage name).bind fun p hp => within_nativesIn fun x hx => hrecord x ⟨name, ?_⟩
  cases hx
  rw [← Library.package_eq_ok]
  cases hfound : l.package name with
  | error e =>
    rw [hfound] at hp
    cases hp
  | ok p =>
    rw [hfound] at hp
    cases hp
    rfl

end

/-! ## Access without a memo -/

/-- An access that looks into no memo. -/
def Access.lift (a : Access (Except Error)) : Access Session where
  locate fullName := liftM (a.locate fullName)
  resolve x r := liftM (a.resolve x r)
  fullName x := liftM (a.fullName x)
  objectFullName x r := liftM (a.objectFullName x r)
  record x := liftM (a.record x)

namespace Library

variable {l : Library} {low high : Located → Except Error FieldRecord}

/-- Plain answers that lie one below the other bound the questions made of them. -/
theorem asks_lift (I : Memo → Prop) (h : ∀ x, l.Found x → Below (low x) (high x)) :
    Asks l I (l.access low).lift low high where
  locate _ := .lift (.refl _)
  resolve _ _ := .lift (.refl _)
  fullName _ := .lift (.refl _)
  objectFullName _ _ := .lift (.refl _)
  record x hx := .lift (h x hx)

/-- Where more fields are known, the fields of structs are the same or more of them are known. -/
theorem flatten_below (h : ∀ x, l.Found x → Below (low x) (high x)) (fullName : String) :
    Below (l.flatten low fullName) (l.flatten high fullName) := by
  obtain ⟨-, hlow, hhigh⟩ := (asks_lift (fun _ => True) h).flatten (l.source.exportCount + 1)
    fullName .empty trivial
  exact hlow.trans hhigh

end Library

end UnrealPackage
