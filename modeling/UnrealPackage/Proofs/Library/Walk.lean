import Mathlib.Data.List.Chain
import Mathlib.Data.List.Perm.Subperm
import UnrealPackage.Error
/-!
# Walks

Lists of objects are stored as chains: each object tells the next one. `Walk step start xs` lists
the objects that are met until a step leads to nothing, and `Loops step x` says that this never
happens, since the steps from `x` lead to an object that comes back to itself.

What is met does not depend on how far the walk has come, so a walk that ends meets nothing twice
(`Walk.nodup`). For the same reason the steps from an object either end (`Ends`), or fail for one
reason (`Fails`), or loop, and no two of these; a search along them that tells which (`Reports`) is
thus known by what it may answer. They loop as soon as they are more than the places that they lead
through (`loops_of_isChain`).
-/

namespace UnrealPackage

variable {α : Type} {step : α → Except Error (Option α)} {start : Option α} {x y z : α}
  {xs ys : List α} {e e' : Error}

/-- The objects that steps lead through until there is none. -/
inductive Walk (step : α → Except Error (Option α)) : Option α → List α → Prop
  | done : Walk step none []
  | step {x : α} {next : Option α} {rest : List α} :
    step x = .ok next → Walk step next rest → Walk step (some x) (x :: rest)

/-- Whether one step leads from an object to another. -/
def Leads (step : α → Except Error (Option α)) (x y : α) : Prop :=
  step x = .ok (some y)

/-- Whether steps lead to an object from which they come back to it. -/
def Loops (step : α → Except Error (Option α)) (x : α) : Prop :=
  ∃ y, Relation.ReflTransGen (Leads step) x y ∧ Relation.TransGen (Leads step) y y

/-- Whether steps lead to an object without a next one. -/
def Ends (step : α → Except Error (Option α)) (x : α) : Prop :=
  ∃ y, Relation.ReflTransGen (Leads step) x y ∧ step y = .ok none

/-- Whether steps lead to an object for which the next one cannot be told, for this reason. -/
def Fails (step : α → Except Error (Option α)) (x : α) (e : Error) : Prop :=
  ∃ y, Relation.ReflTransGen (Leads step) x y ∧ step y = .error e

namespace Walk

/-- Walks from one start to their ends are the same. -/
theorem unique (h : Walk step start xs) (h' : Walk step start ys) : xs = ys := by
  induction h generalizing ys with
  | done => cases h'; rfl
  | step hstep _ ih =>
    cases h' with
    | step hstep' hrest =>
      cases hstep.symm.trans hstep'
      rw [ih hrest]

/-- After each object comes a walk that is shorter. -/
theorem exists_shorter (h : Walk step start xs) (hx : x ∈ xs) : ∃ next rest,
    step x = .ok next ∧ Walk step next rest ∧ rest.length < xs.length := by
  induction h with
  | done => cases hx
  | step hstep hrest ih =>
    rcases List.mem_cons.1 hx with rfl | hx
    · exact ⟨_, _, hstep, hrest, Nat.lt_succ_self _⟩
    · obtain ⟨next, rest, hnext, hwalk, hlt⟩ := ih hx
      exact ⟨next, rest, hnext, hwalk, Nat.lt_succ_of_lt hlt⟩

/-- A walk that ends meets nothing twice. -/
theorem nodup (h : Walk step start xs) : xs.Nodup := by
  induction h with
  | done => exact List.nodup_nil
  | step hstep hrest ih =>
    refine List.nodup_cons.2 ⟨fun hmem => ?_, ih⟩
    obtain ⟨next, rest, hnext, hwalk, hlt⟩ := hrest.exists_shorter hmem
    cases hstep.symm.trans hnext
    rw [hrest.unique hwalk] at hlt
    exact Nat.lt_irrefl _ hlt

/-- A step from one object of a walk leads to the one behind it. -/
theorem step_getElem? (h : Walk step start xs) {i : Nat} (hx : xs[i]? = some x) :
    step x = .ok xs[i + 1]? := by
  have hhead : ∀ {start : Option α} {xs : List α}, Walk step start xs → start = xs[0]? := by
    rintro _ _ (_ | _) <;> rfl
  induction h generalizing i with
  | done => cases hx
  | step hstep hrest ih =>
    cases i with
    | zero =>
      cases hx
      rw [hstep, List.getElem?_cons_succ, hhead hrest]
    | succ i => exact ih hx

/-- What holds at the start and is kept by each step holds all the way. -/
theorem forall_mem {P : α → Prop} (h : Walk step start xs) (hstart : ∀ x ∈ start, P x)
    (hkept : ∀ x y, P x → Leads step x y → P y) : ∀ x ∈ xs, P x := by
  induction h with
  | done => exact fun x hx => nomatch hx
  | step hstep _ ih =>
    have hx := hstart _ rfl
    refine List.forall_mem_cons.2 ⟨hx, ih ?_⟩
    rintro y rfl
    exact hkept _ _ hx hstep

end Walk

/-- From an object that leads to a loop, a step leads to another one. -/
theorem Loops.exists_next (h : Loops step x) : ∃ y, Leads step x y ∧ Loops step y := by
  obtain ⟨y, hxy, hloop⟩ := h
  rcases hxy.cases_head with rfl | ⟨z, hxz, hzy⟩
  · obtain ⟨z, hyz, hzy⟩ := Relation.TransGen.head'_iff.1 hloop
    exact ⟨z, hyz, x, hzy, hloop⟩
  · exact ⟨z, hxz, y, hzy, hloop⟩

/-! ## How steps go on -/

theorem Leads.unique (h : Leads step x y) (h' : Leads step x z) : y = z :=
  Option.some.inj (Except.ok.inj (h.symm.trans h'))

theorem Ends.head (h : Ends step y) (hstep : Leads step x y) : Ends step x := by
  obtain ⟨z, hz, hlast⟩ := h
  exact ⟨z, hz.head hstep, hlast⟩

theorem Fails.head (h : Fails step y e) (hstep : Leads step x y) : Fails step x e := by
  obtain ⟨z, hz, hlast⟩ := h
  exact ⟨z, hz.head hstep, hlast⟩

/-- Steps that stop at an object lead to it from wherever they have come. -/
theorem leads_last (hy : Relation.ReflTransGen (Leads step) x y) (hlast : ∀ w, ¬Leads step y w)
    (hz : Relation.ReflTransGen (Leads step) x z) : Relation.ReflTransGen (Leads step) z y := by
  have hunique : Relator.RightUnique (Leads step) := fun _ _ _ => Leads.unique
  rcases hy.total_of_right_unique hunique hz with hyz | hzy
  · rcases hyz.cases_head with rfl | ⟨w, hw, -⟩
    · exact .refl
    · exact absurd hw (hlast w)
  · exact hzy

/-- Steps do not lead out of a loop. -/
theorem Loops.of_leads (h : Loops step x) (hxy : Relation.ReflTransGen (Leads step) x y) :
    Loops step y := by
  induction hxy with
  | refl => exact h
  | tail _ hstep ih =>
    obtain ⟨z, hz, hloops⟩ := ih.exists_next
    rw [hstep.unique hz]
    exact hloops

theorem Loops.not_ends (h : Loops step x) : ¬Ends step x := by
  rintro ⟨y, hy, hlast⟩
  obtain ⟨z, hz, -⟩ := (h.of_leads hy).exists_next
  cases hlast.symm.trans hz

theorem Loops.not_fails (h : Loops step x) : ¬Fails step x e := by
  rintro ⟨y, hy, hlast⟩
  obtain ⟨z, hz, -⟩ := (h.of_leads hy).exists_next
  cases hlast.symm.trans hz

/-- Steps that fail stop nowhere else. -/
theorem Fails.eq_last (h : Fails step x e) (hz : Relation.ReflTransGen (Leads step) x z)
    (hlast : ∀ w, ¬Leads step z w) : step z = .error e := by
  obtain ⟨y, hy, hfails⟩ := h
  rcases (leads_last hz hlast hy).cases_head with rfl | ⟨w, hw, -⟩
  · exact hfails
  · cases hfails.symm.trans hw

theorem Fails.not_ends (h : Fails step x e) : ¬Ends step x := by
  rintro ⟨z, hz, hlast⟩
  cases hlast.symm.trans (h.eq_last hz fun w hw => by cases hlast.symm.trans hw)

theorem Fails.unique (h : Fails step x e) (h' : Fails step x e') : e = e' := by
  obtain ⟨z, hz, hlast⟩ := h
  exact Except.error.inj
    (hlast.symm.trans (h'.eq_last hz fun w hw => by cases hlast.symm.trans hw))

/-- Whether an answer is given only if steps end, and the reason otherwise: why a step fails, or
that they loop. -/
structure Reports {β : Type} (step : α → Except Error (Option α)) (x : α) (loops : Error)
    (answer : Except Error β) : Prop where
  ends : ∀ b, answer = .ok b → Ends step x
  stops : ∀ e, answer = .error e → Fails step x e ∨ e = loops ∧ Loops step x

section

variable {β : Type} {loops : Error} {answer : Except Error β}

/-- Such an answer is given whenever steps end. -/
theorem Reports.exists_iff (h : Reports step x loops answer) :
    (∃ b, answer = .ok b) ↔ Ends step x := by
  refine ⟨fun ⟨b, hb⟩ => h.ends b hb, fun hends => ?_⟩
  cases hanswer : answer with
  | ok b => exact ⟨b, rfl⟩
  | error e =>
    rcases h.stops e hanswer with hfails | ⟨-, hloops⟩
    · exact absurd hends hfails.not_ends
    · exact absurd hends hloops.not_ends

/-- Such an answer is not given whenever steps do not end. -/
theorem Reports.error_iff (h : Reports step x loops answer) :
    answer = .error e ↔ Fails step x e ∨ e = loops ∧ Loops step x := by
  refine ⟨h.stops e, fun hstops => ?_⟩
  cases hanswer : answer with
  | ok b => exact absurd (h.ends b hanswer) (hstops.elim Fails.not_ends fun h => h.2.not_ends)
  | error e' =>
    refine congrArg _ ?_
    rcases hstops with hfails | ⟨rfl, hloops⟩ <;>
      rcases h.stops e' hanswer with hfails' | ⟨rfl, hloops'⟩
    · exact hfails'.unique hfails
    · exact absurd hfails hloops'.not_fails
    · exact absurd hfails' hloops.not_fails
    · rfl

end

/-- More steps than there are places for come back to one of these. -/
theorem loops_of_isChain {places : List α} (h : (x :: xs).IsChain (Leads step))
    (hplaces : xs ⊆ places) (hlong : places.length < xs.length) : Loops step x := by
  obtain ⟨hreached, hpairs⟩ := List.pairwise_cons.1
    (List.isChain_iff_pairwise.1 (h.imp fun _ _ => Relation.TransGen.single))
  by_contra hloops
  have hnodup : xs.Nodup := by
    refine hpairs.imp_of_mem fun hy _ hyz hsame => hloops ?_
    subst hsame
    exact ⟨_, (hreached _ hy).to_reflTransGen, hyz⟩
  exact Nat.not_le.2 hlong (hnodup.length_le_of_subset hplaces)

end UnrealPackage
