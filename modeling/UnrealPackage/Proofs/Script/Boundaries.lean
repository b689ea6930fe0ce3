import UnrealPackage.Proofs.Script.Rewriting
/-!
# Where statements begin and end

Jumps, cases, iterators and label tables hold positions in the memory of a loaded script, and
writing keeps these numbers. They mean the same places as before only if the statements keep their
sizes. The reader counts what it finds and the writer what it writes, and the two counts differ in
one thing: a native function below 0x100 that is told by two bytes takes one byte less when it is
written again, so whatever lies behind it moves towards the beginning.

`boundaries_of_decodeSized` says so for every boundary between statements. Positions are kept up to
the first such call and, if there is none, throughout.
-/

namespace UnrealPackage.Script

/-! ## The boundaries of the reader -/

/-- The boundaries of statements, as the reader counts on its way from one position to another: what
is used where the first statement begins, and behind each of them. -/
inductive Boundaries (ctx : Context) : Position → List Expr → List UInt32 → Position → Prop
  | nil (p : Position) : Boundaries ctx p [] [p.used] p
  | cons {p m q : Position} {e : Expr} {es : List Expr} {bounds : List UInt32}
    (h : readExpr ctx nestingLimit .main p = .ok (e, m)) (hrest : Boundaries ctx m es bounds q) :
    Boundaries ctx p (e :: es) (p.used :: bounds) q

variable {ctx : Context} {p q : Position} {statements : List Expr} {bounds : List UInt32}

/-- Statements that are read one after the other have boundaries. -/
theorem boundaries_of_readStatements {size : UInt32} {bound : Nat}
    (h : readStatements ctx size bound p = .ok (statements, q)) :
    ∃ bounds, Boundaries ctx p statements bounds q := by
  induction bound generalizing p statements with
  | zero => cases h
  | succ bound ih =>
    obtain ⟨-, rfl, rfl⟩ | ⟨-, e, m, es, he, hes, rfl⟩ := readStatements_eq_ok.1 h
    · exact ⟨[_], .nil _⟩
    · obtain ⟨bounds, hbounds⟩ := ih hes
      exact ⟨_, .cons he hbounds⟩

namespace Boundaries

theorem length_eq (h : Boundaries ctx p statements bounds q) :
    bounds.length = statements.length + 1 := by
  induction h with
  | nil p => rfl
  | cons he hrest ih => rw [List.length_cons, List.length_cons, ih]

/-- The last boundary is the end. -/
theorem getLast?_eq (h : Boundaries ctx p statements bounds q) : bounds.getLast? = some q.used := by
  induction h with
  | nil p => rfl
  | cons he hrest ih => rw [List.getLast?_cons, ih, Option.getD_some]

end Boundaries

/-- The boundaries are what the pieces in front of them take in memory. -/
theorem SpellsStatements.getElem_boundaries {size used : UInt32} {spelled : List (List Piece)}
    {rest : List UInt8} (hs : SpellsStatements ctx size used spelled statements)
    (hb : Boundaries ctx ⟨bytesOf spelled.flatten ++ rest, used⟩ statements bounds q) (k : Nat)
    (hk : k < bounds.length) :
    bounds[k] = used + .ofNat (loadedSizeOf (spelled.take k).flatten) := by
  induction hs generalizing bounds k with
  | nil hsize =>
    cases hb
    obtain rfl : k = 0 := Nat.lt_one_iff.1 hk
    exact (UInt32.add_zero _).symm
  | @cons used pieces e more es hsize he hrest ih =>
    cases hb with
    | cons he' hb =>
      rw [List.flatten_cons, bytesOf_append, List.append_assoc] at he'
      have hread := Spells.reads ctx nestingLimit .main he (bytesOf more.flatten ++ rest) used
      cases hread.symm.trans he'
      cases k with
      | zero => exact (UInt32.add_zero _).symm
      | succ k =>
        rw [List.getElem_cons_succ, ih hb, List.take_succ_cons, List.flatten_cons,
          loadedSizeOf_append, add_ofNat_add_ofNat]

/-- Each statement takes some size in memory. -/
theorem SpellsStatements.loadedSizeOf_pos {size used : UInt32} {spelled : List (List Piece)}
    (h : SpellsStatements ctx size used spelled statements) :
    ∀ pieces ∈ spelled, 0 < loadedSizeOf pieces := by
  induction h with
  | nil hsize => exact nofun
  | cons hsize he hrest ih => exact List.forall_mem_cons.2 ⟨he.loadedSizeOf_pos, ih⟩

/-- Every statement takes something, so more of them take more. -/
theorem loadedSizeOf_take_lt {spelled : List (List Piece)}
    (h : ∀ pieces ∈ spelled, 0 < loadedSizeOf pieces) {i j : Nat} (hij : i < j)
    (hj : j ≤ spelled.length) :
    loadedSizeOf (spelled.take i).flatten < loadedSizeOf (spelled.take j).flatten := by
  obtain ⟨j, rfl⟩ := Nat.exists_eq_add_one_of_ne_zero (Nat.ne_of_gt (Nat.zero_lt_of_lt hij))
  induction spelled generalizing i j with
  | nil => cases hj
  | cons pieces more ih =>
    obtain ⟨hpos, hmore⟩ := List.forall_mem_cons.1 h
    rw [List.take_succ_cons, List.flatten_cons, loadedSizeOf_append]
    cases i with
    | zero => exact Nat.lt_of_lt_of_le hpos (Nat.le_add_right _ _)
    | succ i =>
      have hlt := Nat.lt_of_succ_lt_succ hij
      rw [List.take_succ_cons, List.flatten_cons, loadedSizeOf_append]
      obtain ⟨j, rfl⟩ := Nat.exists_eq_add_one_of_ne_zero (Nat.ne_of_gt (Nat.zero_lt_of_lt hlt))
      exact Nat.add_lt_add_left (ih hmore j hlt (Nat.le_of_succ_le_succ hj)) _

/-- Every statement ends behind the place where it begins, if the counter holds the size. -/
theorem SpellsStatements.pairwise_boundaries {size : UInt32} {spelled : List (List Piece)}
    {rest : List UInt8} (hs : SpellsStatements ctx size 0 spelled statements)
    (hb : Boundaries ctx ⟨bytesOf spelled.flatten ++ rest, 0⟩ statements bounds q)
    (hsize : loadedSizeOf spelled.flatten < 0x100000000) : bounds.Pairwise (· < ·) := by
  have hlength : bounds.length = spelled.length + 1 := by
    rw [hb.length_eq, hs.forall₂.length_eq]
  rw [List.pairwise_iff_getElem]
  intro i j hi hj hij
  have hlt := loadedSizeOf_take_lt hs.loadedSizeOf_pos hij (by omega)
  have hsplit := congrArg (fun l => loadedSizeOf l.flatten) (List.take_append_drop j spelled)
  simp only [List.flatten_append, loadedSizeOf_append] at hsplit
  rw [hs.getElem_boundaries hb i hi, hs.getElem_boundaries hb j hj, UInt32.zero_add,
    UInt32.zero_add]
  exact ofNat_lt_ofNat hlt (by omega)

/-! ## The boundaries of the writer -/

/-- Where statements are moved when they are written again. For every script that is read, and
however its bytes are taken for pieces, the boundary behind the first `k` statements is counted by
the reader as what is counted in writing these statements, and one more for each native function in
front of it that is told by two bytes for which one is enough. It is kept exactly if there is none.
The last boundary is the size that the reader has used, and the size of the whole script that is
written. The boundaries follow one another unless the counter has begun again on the way. -/
theorem boundaries_of_decodeSized {size used : UInt32} {input rest : List UInt8}
    (hnatives : ctx.natives.Indexed) (hcs : ctx.charset.Total)
    (h : decodeSized ctx size input = .ok ((statements, used), rest)) :
    ∃ bounds, Boundaries ctx ⟨input, 0⟩ statements bounds ⟨rest, used⟩ ∧
      bounds.length = statements.length + 1 ∧ bounds.getLast? = some used ∧
      (∃ spelled, SpellsStatements ctx size 0 spelled statements ∧
        input = bytesOf spelled.flatten ++ rest) ∧
      ∀ spelled, SpellsStatements ctx size 0 spelled statements →
        input = bytesOf spelled.flatten ++ rest →
        (loadedSizeOf spelled.flatten < 0x100000000 → bounds.Pairwise (· < ·)) ∧
        ∀ k (hk : k < bounds.length), ∃ bytes written,
          encodeSized ctx.charset (statements.take k) = .ok (bytes, written) ∧
          bounds[k] = written + .ofNat (lengthyCount (spelled.take k).flatten) ∧
          (lengthyCount (spelled.take k).flatten < 0x100000000 →
            (bounds[k] = written ↔ ∀ piece ∈ (spelled.take k).flatten, ¬ piece.IsLengthy)) := by
  obtain ⟨⟨es, q⟩, hread, hpure⟩ := except_bind_eq_ok.1 h
  cases hpure
  obtain ⟨bounds, hb⟩ := boundaries_of_readStatements hread
  obtain ⟨spelled, hs, hinput, -⟩ := spelled_of_decodeSized h
  refine ⟨bounds, hb, hb.length_eq, hb.getLast?_eq, ⟨spelled, hs, hinput⟩, ?_⟩
  intro spelled hs hinput
  rw [hinput] at hb
  refine ⟨hs.pairwise_boundaries hb, fun k hk => ?_⟩
  have hbound := hs.getElem_boundaries hb k hk
  rw [UInt32.zero_add, loadedSizeOf_eq, UInt32.ofNat_add] at hbound
  have hwritten := encodeSized_of_spells hnatives hcs (List.forall₂_take k hs.forall₂)
  refine ⟨_, _, hwritten, hbound, fun hcount => ?_⟩
  rw [hbound, ← lengthyCount_eq_zero]
  exact add_ofNat_eq_left_iff hcount

/-- A jump behind the next statement, which calls the function 0x80 told by two bytes. -/
def longJump : List UInt8 := [0x06, 0x06, 0x00, 0x60, 0x80, 0x16, 0x0B]

/-- What `longJump` is read as. -/
def longJumpStatements : List Expr :=
  [.jump 6, .call (.native ⟨0x80, "Native128", false, 0, false⟩) [], .atom .nothing]

/-- A reader of `longJump`. -/
def Context.anyNativeLatin : Context :=
  { Context.anyNative with charset := .windows1252 }

theorem decodeSized_longJump :
    decodeSized .anyNativeLatin 7 longJump = .ok ((longJumpStatements, 7), []) := by
  rfl

/-- The boundaries of some script do move. The jump leads to the last statement, which is read at 6;
it is written at 5, and the script ends at 6. -/
theorem boundaries_longJump :
    decodeSized .anyNativeLatin 7 longJump = .ok ((longJumpStatements, 7), []) ∧
      Boundaries .anyNativeLatin ⟨longJump, 0⟩ longJumpStatements [0, 3, 6, 7] ⟨[], 7⟩ ∧
      longJumpStatements.flatMap Expr.branchOffsets = [6] ∧
      encodeSized .windows1252 (longJumpStatements.take 2) =
        .ok ([0x06, 0x06, 0x00, 0x80, 0x16], 5) ∧
      encodeSized .windows1252 longJumpStatements =
        .ok ([0x06, 0x06, 0x00, 0x80, 0x16, 0x0B], 6) := by
  have hjump : readExpr .anyNativeLatin nestingLimit .main ⟨longJump, 0⟩ =
      .ok (.jump 6, ⟨[0x60, 0x80, 0x16, 0x0B], 3⟩) := by rfl
  have hcall : readExpr .anyNativeLatin nestingLimit .main ⟨[0x60, 0x80, 0x16, 0x0B], 3⟩ =
      .ok (.call (.native ⟨0x80, "Native128", false, 0, false⟩) [], ⟨[0x0B], 6⟩) := by
    set_option maxRecDepth 2000 in rfl
  have hnothing : readExpr .anyNativeLatin nestingLimit .main ⟨[0x0B], 6⟩ =
      .ok (.atom .nothing, ⟨[], 7⟩) := by rfl
  exact ⟨rfl, .cons hjump (.cons hcall (.cons hnothing (.nil _))), rfl, rfl, rfl⟩

/-- A jump behind a native function told by two bytes: where the boundaries are, and where they are
written. -/
theorem boundaries_of_decodeSized_longJump :
    ∃ bounds, Boundaries .anyNativeLatin ⟨longJump, 0⟩ longJumpStatements bounds ⟨[], 7⟩ ∧
      bounds.length = 4 ∧ bounds.getLast? = some 7 ∧
      ∃ spelled : List (List Piece), bytesOf spelled.flatten = longJump ∧
        ∀ k (hk : k < bounds.length), ∃ bytes written,
          encodeSized .windows1252 (longJumpStatements.take k) = .ok (bytes, written) ∧
          bounds[k] = written + .ofNat (lengthyCount (spelled.take k).flatten) := by
  obtain ⟨bounds, hb, hlength, hlast, ⟨spelled, hs, hinput⟩, hkept⟩ :=
    boundaries_of_decodeSized NativeTable.indexed_any
      Charset.total_windows1252 decodeSized_longJump
  refine ⟨bounds, hb, hlength, hlast, spelled, ?_, fun k hk => ?_⟩
  · rw [hinput, List.append_nil]
  · obtain ⟨bytes, written, hwritten, hbound, -⟩ := (hkept spelled hs hinput).2 k hk
    exact ⟨bytes, written, hwritten, hbound⟩

end UnrealPackage.Script
