import UnrealPackage.Proofs.Binary.Text
import UnrealPackage.Proofs.Tables.Entry
import UnrealPackage.Script.Expr.Decode
import UnrealPackage.Script.Expr.Encode
/-!
# What a reader of script bytes takes and counts

A reader of script bytes consumes two things: bytes of the image and size in memory.
`ScriptDecode.Reads d front size a` says that `d` takes exactly the bytes `front` and counts exactly
`size` for them, whatever follows and whatever was counted before. A script round trip therefore
shows in one induction that the bytes are read back and that the sizes of reader and writer agree.

Sizes are natural numbers here. The counter of a reader has 32 bits and begins again behind the
largest number, so what it stands at tells a size only below that; that two readers count alike does
not depend on it.

Constants and label tables, which hold no expressions, are read back here.
-/

namespace UnrealPackage.Script

/-- A counter of 32 bits counts one size behind another as their sum. -/
theorem add_ofNat_add_ofNat (used : UInt32) (size extra : Nat) :
    used + .ofNat size + .ofNat extra = used + .ofNat (size + extra) := by
  rw [UInt32.ofNat_add, UInt32.add_assoc]

/-- A counter of 32 bits stands where it stood if nothing was counted, or more than it holds. -/
theorem add_ofNat_eq_left_iff {used : UInt32} {size : Nat} (h : size < 0x100000000) :
    used + .ofNat size = used ↔ size = 0 := by
  rw [UInt32.add_eq_left, UInt32.ofNat_eq_iff_mod_eq_toNat, Nat.mod_eq_of_lt h]
  rfl

/-- Sizes that a counter of 32 bits holds are in the same order there. -/
theorem ofNat_lt_ofNat {size bound : Nat} (h : size < bound) (hbound : bound < 0x100000000) :
    UInt32.ofNat size < .ofNat bound :=
  (UInt32.ofNat_lt_iff_lt (Nat.lt_trans h hbound) hbound).2 h

namespace ScriptDecode

variable {α β : Type} {d : ScriptDecode α} {f : α → ScriptDecode β} {a : α} {b : β}
  {front more : List UInt8} {size extra : Nat}

/-- `d` takes exactly `front` off its input, whatever follows, counts `size` for it, and gives
`a`. -/
def Reads (d : ScriptDecode α) (front : List UInt8) (size : Nat) (a : α) : Prop :=
  ∀ rest used, d ⟨front ++ rest, used⟩ = .ok (a, ⟨rest, used + .ofNat size⟩)

/-! ## Sequencing -/

/-- The same bytes and the same size, written in another way. -/
theorem Reads.congr {front' : List UInt8} {size' : Nat} (h : Reads d front size a)
    (hfront : front = front') (hsize : size = size') : Reads d front' size' a := by
  subst hfront hsize
  exact h

/-- Sizes that a counter does not tell apart are counted alike. -/
theorem Reads.congr_ofNat {size' : Nat} (h : Reads d front size a)
    (hsize : UInt32.ofNat size = .ofNat size') : Reads d front size' a := by
  intro rest used
  rw [← hsize]
  exact h rest used

theorem Reads.pure (a : α) : Reads (Pure.pure a) [] 0 a := by
  intro rest used
  show Except.ok (a, (⟨rest, used⟩ : Position)) = .ok (a, ⟨rest, used + 0⟩)
  rw [UInt32.add_zero]

/-- After a reader that takes its bytes, what follows it goes on with the rest of the input. -/
theorem Reads.continues (h : Reads d front size a) (f : α → ScriptDecode β) (rest : List UInt8)
    (used : UInt32) :
    (d >>= f) ⟨front ++ rest, used⟩ = f a ⟨rest, used + .ofNat size⟩ := by
  show (d ⟨front ++ rest, used⟩ >>= fun q => f q.1 q.2) = _
  rw [h]
  rfl

/-- Readers read one after the other, and their sizes add up. -/
theorem Reads.bind (h : Reads d front size a) (h' : Reads (f a) more extra b) :
    Reads (d >>= f) (front ++ more) (size + extra) b := by
  intro rest used
  rw [List.append_assoc, h.continues, h', add_ofNat_add_ofNat]

theorem Reads.map (h : Reads d front size a) (g : α → β) : Reads (g <$> d) front size (g a) := by
  intro rest used
  show (d ⟨front ++ rest, used⟩ >>= fun q => Pure.pure (g q.1, q.2)) = _
  rw [h]
  rfl

/-- The last step of a sequence that gives a value made of those read before. -/
theorem Reads.bindPure (h : Reads d front size a) (g : α → β) :
    Reads (d >>= fun a => Pure.pure (g a)) front size (g a) :=
  h.map g

/-- A loop that may take one step more than bytes are left may take any number of steps that the
bytes of its items allow. -/
theorem Reads.itemBound {k : Nat → ScriptDecode α}
    (h : ∀ bound, front.length < bound → Reads (k bound) front size a) :
    Reads (itemBound >>= k) front size a := by
  intro rest used
  have hbound : front.length < (front ++ rest).length + 1 := by
    rw [List.length_append]
    omega
  exact h _ hbound rest used

/-! ## Values of a fixed width -/

/-- What is read as it stands takes as much memory as there are bytes. -/
theorem Reads.plain {d : Decode α} (h : Decode.Reads d front a) :
    Reads (plain d) front front.length a := by
  intro rest used
  have hlength : (front ++ rest).length - rest.length = front.length := by
    rw [List.length_append]
    omega
  show (d (front ++ rest) >>= fun q =>
    Pure.pure (q.1, Position.mk q.2 (used + .ofNat ((front ++ rest).length - q.2.length)))) = _
  rw [h, ← hlength]
  rfl

theorem Reads.wide {d : Decode α} (h : Decode.Reads d front a) : Reads (wide d) front 4 a := by
  intro rest used
  show (d (front ++ rest) >>= fun q => Pure.pure (q.1, Position.mk q.2 (used + 4))) = _
  rw [h]
  rfl

theorem reads_u8 (v : UInt8) : Reads u8 [v] 1 v :=
  .plain (Decode.reads_u8 v)

theorem reads_u16 (v : UInt16) : Reads u16 (Encode.u16 v) 2 v :=
  (Reads.plain (Decode.reads_u16 v)).congr rfl (Encode.length_u16 v)

theorem reads_i32 (v : Int32) : Reads i32 (Encode.i32 v) 4 v :=
  (Reads.plain (Decode.reads_i32 v)).congr rfl (Encode.length_i32 v)

theorem reads_single (v : Single) : Reads single (Encode.single v) 4 v :=
  (Reads.plain (Decode.reads_single v)).congr rfl (Encode.length_single v)

theorem reads_compact (v : Int32) : Reads compact (Encode.compact v) 4 v :=
  .wide (Decode.reads_compact v)

theorem reads_object (r : ObjectRef) : Reads object (Encode.compactRef r) 4 r :=
  .wide (Decode.reads_compactRef r)

end ScriptDecode

open ScriptDecode

/-! ## Constants -/

/-- Whether a text can be stored up to a zero: it holds none itself, and the charset holds it. -/
def Const.Storable (cs : Charset) : Const → Prop
  | text s => '\x00' ∉ s.toList ∧ (cs.encode? s).isSome
  | wideText s => '\x00' ∉ s.toList
  | _ => True

instance (cs : Charset) (c : Const) : Decidable (c.Storable cs) := by
  cases c <;> unfold Const.Storable <;> infer_instance

/-- A constant is read back behind its opcode. -/
theorem reads_const {cs : Charset} {c : Const} (h : c.Storable cs) :
    Reads (readConst cs c.kind) (c.encode cs) (c.loadedSize cs) c := by
  cases c with
  | int v => exact (reads_i32 v).map _ |>.congr rfl (Encode.length_i32 v).symm
  | float v => exact (reads_single v).map _ |>.congr rfl (Encode.length_single v).symm
  | text s =>
    obtain ⟨hzero, hs⟩ := h
    obtain ⟨stored, hstored⟩ := Option.isSome_iff_exists.1 hs
    exact (Reads.plain (Decode.reads_textUntilZero hstored hzero)).map _
  | wideText s => exact (Reads.plain (Decode.reads_wideTextUntilZero _ h)).map _
  | name n => exact (reads_compact n).map _
  | byte v => exact (reads_u8 v).map _
  | shortInt v => exact (reads_u8 v).map _
  | rotator pitch yaw roll =>
    have hr : Reads (readConst cs .rotator) _ _ (.rotator pitch yaw roll) :=
      (reads_i32 pitch).bind <| (reads_i32 yaw).bind <| (reads_i32 roll).bindPure _
    refine hr.congr ?_ ?_ <;> simp [Const.encode, Const.loadedSize]
  | vector x y z =>
    have hr : Reads (readConst cs .vector) _ _ (.vector x y z) :=
      (reads_single x).bind <| (reads_single y).bind <| (reads_single z).bindPure _
    refine hr.congr ?_ ?_ <;> simp [Const.encode, Const.loadedSize]

/-! ## Label tables -/

/-- Whether the last label, and no other, has the name that ends a table. -/
def EndsWith (last : NameIndex) (labels : List Label) : Prop :=
  labels.getLast?.map (·.name) = some last ∧ ∀ l ∈ labels.dropLast, l.name ≠ last

instance (last : NameIndex) (labels : List Label) : Decidable (EndsWith last labels) :=
  inferInstanceAs (Decidable (_ ∧ _))

/-- Labels are read up to the first that has the name of the end. -/
theorem reads_labels {i bound : Nat} {labels : List Label} (h : EndsWith (Int32.ofNat i) labels)
    (hbound : labels.length ≤ bound) :
    Reads (readLabels (some i) bound) (labels.flatMap Label.encode) (8 * labels.length) labels := by
  induction labels generalizing bound with
  | nil => cases h.1
  | cons l labels ih =>
    rw [List.length_cons] at hbound
    obtain ⟨bound, rfl⟩ : ∃ b, bound = b + 1 := ⟨bound - 1, by omega⟩
    -- what follows the first label depends on its name alone
    have hcons : ∀ {more extra},
        Reads (if l.name = Int32.ofNat i then pure [l] else
          readLabels (some i) bound >>= fun rest => pure (l :: rest)) more extra (l :: labels) →
        Reads (readLabels (some i) (bound + 1)) (l.encode ++ more) (8 + extra) (l :: labels) := by
      intro more extra hrest
      have hr : Reads (readLabels (some i) (bound + 1)) _ _ (l :: labels) :=
        (reads_compact l.name).bind ((reads_i32 l.offset).bind hrest)
      refine hr.congr ?_ (by omega)
      rw [Label.encode, List.append_assoc]
    cases labels with
    | nil =>
      have hname : l.name = Int32.ofNat i := by simpa using h.1
      rw [if_pos hname] at hcons
      exact (hcons (.pure [l])).congr (by simp) rfl
    | cons l' labels =>
      obtain ⟨hlast, hinit⟩ := h
      have hname : l.name ≠ Int32.ofNat i := hinit l (by simp)
      have hends : EndsWith (Int32.ofNat i) (l' :: labels) :=
        ⟨by simpa using hlast, fun x hx => hinit x (by simp [hx])⟩
      have hrest := ih hends (Nat.le_of_succ_le_succ hbound)
      rw [if_neg hname] at hcons
      refine (hcons (hrest.bindPure (l :: ·))).congr rfl ?_
      simp only [List.length_cons]
      omega

/-- Every label takes a byte at least. -/
theorem length_le_flatMap_encode (labels : List Label) :
    labels.length ≤ (labels.flatMap Label.encode).length := by
  induction labels with
  | nil => exact Nat.le_refl _
  | cons l labels ih =>
    rw [List.flatMap_cons, List.length_append, List.length_cons, Label.encode, List.length_append,
      Encode.length_i32]
    omega

/-! ## Statements -/

section

variable {ctx : Context} {size : UInt32} {bound : Nat} {p q : Position} {statements : List Expr}

/-- Where the size is reached, no statement is read. -/
theorem readStatements_of_le (h : size ≤ p.used) :
    readStatements ctx size (bound + 1) p = .ok ([], p) := by
  show (if size ≤ p.used then pure [] else _ : ScriptDecode (List Expr)) p = _
  rw [if_pos h]
  rfl

/-- Below the size, a statement is read, and the others behind it. -/
theorem readStatements_of_lt (h : p.used < size) :
    readStatements ctx size (bound + 1) p =
      (readExpr ctx nestingLimit .main >>= fun e =>
        (e :: ·) <$> readStatements ctx size bound) p := by
  show (if size ≤ p.used then pure [] else _ : ScriptDecode (List Expr)) p = _
  rw [if_neg (UInt32.not_le.2 h)]
  rfl

/-- Statements are read one after the other, up to where the size is reached. -/
theorem readStatements_eq_ok :
    readStatements ctx size (bound + 1) p = .ok (statements, q) ↔
      (size ≤ p.used ∧ statements = [] ∧ q = p) ∨
        (p.used < size ∧ ∃ e m es, readExpr ctx nestingLimit .main p = .ok (e, m) ∧
          readStatements ctx size bound m = .ok (es, q) ∧ statements = e :: es) := by
  by_cases h : size ≤ p.used
  · have hlt : ¬p.used < size := UInt32.not_lt.2 h
    simp [readStatements_of_le h, h, hlt, eq_comm]
  · have hlt : p.used < size := UInt32.not_le.1 h
    rw [readStatements_of_lt hlt]
    simp only [stateT_bind_eq_ok, stateT_map_eq_ok, h, hlt, false_and, false_or, true_and]
    constructor
    · rintro ⟨e, m, he, es, hes, rfl⟩
      exact ⟨e, m, es, he, hes, rfl⟩
    · rintro ⟨e, m, es, he, hes, rfl⟩
      exact ⟨e, m, he, es, hes, rfl⟩

end

end UnrealPackage.Script
