import UnrealPackage.Proofs.Package.Layout
/-!
# Running changes

How a change made of steps runs: `Change.bind_ok` where the first step succeeds, `Change.bind_error`
where it fails and what it did stays done. `Change.after_bind` joins both for what is said of the
package that is left behind, whatever the outcome. `Change.reload_eq` is the step that ends every
change of the tables.

`Change.Keeps` is what invariants are carried through steps with: each step has to keep one only
where it leaves an image that is small enough.
-/

namespace UnrealPackage.Change

variable {α β : Type} {c : Change α} {f : α → Change β} {a : α} {e : Error} {p p' : Package}

/-- A second step runs on what the first one left, if that one succeeded. -/
theorem bind_eq : (c >>= f) p = match c p with
    | (.ok a, p') => f a p'
    | (.error e, p') => (.error e, p') := by
  show (ExceptT.bindCont f (c p).1) (c p).2 = _
  rcases c p with ⟨_ | a, p'⟩ <;> rfl

theorem bind_ok (h : c p = (.ok a, p')) : (c >>= f) p = f a p' := by
  rw [bind_eq, h]

theorem bind_error (h : c p = (.error e, p')) : (c >>= f) p = (.error e, p') := by
  rw [bind_eq, h]

/-- A value of the package is at hand at once. -/
theorem bind_look {g : Package → α} : (gets (fun p => pure (g p)) >>= f) p = f (g p) p :=
  rfl

/-- The package is replaced before the next step. -/
theorem bind_update {g : Package → Package} {f : Unit → Change β} :
    (update g >>= f) p = f () (g p) :=
  rfl

/-- A last step that only looks does not matter for what is left behind. -/
theorem after_bind_eq (hf : ∀ a q, (f a q).2 = q) : ((c >>= f) p).2 = (c p).2 := by
  rw [bind_eq]
  rcases c p with ⟨_ | a, p'⟩
  · rfl
  · exact hf a p'

theorem after_bind_pure {g : α → β} : ((c >>= fun a => pure (g a)) p).2 = (c p).2 :=
  after_bind_eq fun _ _ => rfl

/-- What holds after a first step, and after a second one if that succeeded, holds after both. -/
theorem after_bind {P : Package → Prop} (hc : P (c p).2)
    (hf : ∀ a p', c p = (.ok a, p') → P p' → P (f a p').2) : P ((c >>= f) p).2 := by
  rw [bind_eq]
  rcases hcp : c p with ⟨_ | a, p'⟩
  · rwa [hcp] at hc
  · rw [hcp] at hc
    exact hf a p' hcp hc

/-- Looking at the package changes nothing. -/
theorem after_gets {P : Package → Prop} {g : Package → Except Error α} (hp : P p)
    (hf : ∀ a, g p = .ok a → P (f a p).2) : P ((gets g >>= f) p).2 :=
  after_bind hp fun a p' h _ => by
    obtain ⟨ha, rfl⟩ := Prod.mk.inj h
    exact hf a ha

theorem ensureWritable_ok (h : p.options.writable = true) : ensureWritable p = (.ok (), p) := by
  simp only [ensureWritable, gets, h, if_true]
  rfl

theorem gets_ok {g : Package → Except Error α} (h : g p = .ok a) : gets g p = (.ok a, p) := by
  rw [gets, h]

theorem gets_error {g : Package → Except Error α} (h : g p = .error e) :
    gets g p = (.error e, p) := by
  rw [gets, h]

theorem lift_ok {x : Except Error α} (h : x = .ok a) : (liftM x : Change α) p = (.ok a, p) := by
  rw [h]
  rfl

theorem lift_error {x : Except Error α} (h : x = .error e) :
    (liftM x : Change α) p = (.error e, p) := by
  rw [h]
  rfl

/-- A field of the header is written, in the image and in memory. -/
theorem setField_ok (h : p.options.writable = true) (position : Nat) (data : List UInt8)
    (set : Header → Header) : setField position data set p = (.ok (), { p with
      image := writeAt p.image position data
      header := set p.header }) :=
  bind_ok (ensureWritable_ok h)

/-- Reading an image again takes over what it says. -/
theorem reload_eq {h : Header} {t : Tables}
    (hr : readImage p.tables.package p.options.charset p.image = .ok (h, t)) :
    reload p = (.ok (), { p with header := h, tables := t }) := by
  rw [reload, bind_ok (gets_ok hr)]
  rfl

/-- Whatever the outcome, reading an image again leaves the image as it is. -/
theorem image_reload (p : Package) : (reload p).2.image = p.image := by
  rw [reload, bind_eq, gets]
  cases readImage p.tables.package p.options.charset p.image <;> rfl

/-! ## What a change keeps -/

section Keeps

variable {P : Package → Prop}

/-- From `p` on, the change keeps a property of packages unless it makes the image too large. -/
def Keeps (P : Package → Prop) (c : Change α) (p : Package) : Prop :=
  (c p).2.image.length < 0x100000000 → P (c p).2

theorem keeps_look {g : Package → α} :
    Keeps P (gets (fun p => pure (g p)) >>= f) p ↔ Keeps P (f (g p)) p :=
  .rfl

/-- A last step that only looks does not matter. -/
theorem keeps_bind_eq (hf : ∀ a q, (f a q).2 = q) : Keeps P (c >>= f) p ↔ Keeps P c p := by
  rw [Keeps, after_bind_eq hf, Keeps]

theorem keeps_bind_pure {g : α → β} : Keeps P (c >>= fun a => pure (g a)) p ↔ Keeps P c p :=
  keeps_bind_eq fun _ _ => rfl

/-- A step that leaves the package as it is keeps what holds of it. -/
theorem keeps_pure (h : P p) (a : α) : Keeps P (pure a) p :=
  fun _ => h

/-- A property goes through two steps if the first one leaves an image that is small enough. -/
theorem keeps_bind (hc : P (c p).2)
    (hf : ∀ a p', c p = (.ok a, p') → P p' → Keeps P (f a) p') : Keeps P (c >>= f) p := by
  unfold Keeps
  exact after_bind (P := fun p => p.image.length < 0x100000000 → P p)
    (fun _ => hc) fun a p' hp' _ => hf a p' hp' (by rwa [hp'] at hc)

theorem keeps_gets {g : Package → Except Error α} (h : P p)
    (hf : ∀ a, g p = .ok a → Keeps P (f a) p) : Keeps P (gets g >>= f) p := by
  refine keeps_bind h fun a p' hp' _ => ?_
  obtain ⟨ha, rfl⟩ := Prod.mk.inj hp'
  exact hf a ha

theorem keeps_lift {x : Except Error α} (h : P p) (hf : ∀ a, x = .ok a → Keeps P (f a) p) :
    Keeps P (MonadLiftT.monadLift x >>= f : Change β) p :=
  keeps_gets (g := fun _ => x) h hf

/-- Adding names keeps what editing them keeps. -/
theorem keeps_addNames {entries : List NameEntry} (h : P p)
    (hedit : Keeps P (updateNames fun _ => entries.foldl addMissing p.tables.names) p) :
    Keeps P (addNames entries) p := by
  rw [addNames, keeps_look]
  dsimp only
  split
  · rwa [keeps_bind_pure]
  · exact keeps_pure h _

end Keeps

end UnrealPackage.Change
