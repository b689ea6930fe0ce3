import Mathlib.Data.List.Forall2
import UnrealPackage.Proofs.Script.Canonical
/-!
# Reading, writing and reading again

`encodeSized_decodeSized`: whatever the reader accepts can be written, in no more bytes than were
read, and reads back as the same statements. What is written differs from what was read only where a
piece was not in its canonical form: a compact integer that was longer than necessary, or a native
function below 0x100 that was told by two bytes.

The declared size need not be kept. The last statement may go beyond it, so the size that is counted
in writing is the one to read the new bytes with.
-/

namespace UnrealPackage.Script

/-! ## Bytes that are kept -/

/-- Whether the piece is in the form in which it is written. -/
def Piece.IsShortest : Piece → Prop
  | plain _ => True
  | compact value form _ => form = Encode.compact value
  | native form => ¬ form.IsLengthy

namespace Piece

/-- The canonical form of a piece is no longer than the piece. -/
theorem length_canonical_le (piece : Piece) :
    piece.canonical.bytes.length ≤ piece.bytes.length := by
  cases piece with
  | plain bytes => exact Nat.le_refl _
  | compact value form h => exact h.length_compact_le
  | native form =>
    rw [canonical, bytes, bytes, NativeForm.canonical]
    split
    · exact Nat.succ_le_succ (Nat.zero_le _)
    · exact Nat.le_refl _

/-- Writing a piece again gives the same bytes exactly if they were in the form that is written. -/
theorem bytes_canonical_eq_iff (piece : Piece) :
    piece.canonical.bytes = piece.bytes ↔ piece.IsShortest := by
  cases piece with
  | plain bytes => exact ⟨fun _ => trivial, fun _ => rfl⟩
  | compact value form h => exact eq_comm
  | native form =>
    rw [canonical, bytes, bytes, NativeForm.canonical, IsShortest]
    split
    · next hlengthy =>
      refine ⟨fun hbytes => ?_, fun hshort => absurd hlengthy hshort⟩
      cases form with
      | short opcode h => exact hlengthy.elim
      | long high low hge hlt =>
        have hlength : 1 = 2 := congrArg List.length hbytes
        cases hlength
    · next hshort => exact ⟨fun _ => hshort, fun _ => rfl⟩

end Piece

/-- The canonical form of some pieces is no longer than they are. -/
theorem length_canonicalOf_le (pieces : List Piece) :
    (bytesOf (canonicalOf pieces)).length ≤ (bytesOf pieces).length := by
  induction pieces with
  | nil => exact Nat.le_refl _
  | cons piece pieces ih =>
    have hpiece := piece.length_canonical_le
    rw [canonicalOf_cons, bytesOf_cons, bytesOf_cons, List.length_append, List.length_append]
    omega

/-- Pieces are kept as a whole exactly if each of them is kept: none can gain what another lost. -/
theorem bytesOf_canonicalOf_eq_iff (pieces : List Piece) :
    bytesOf (canonicalOf pieces) = bytesOf pieces ↔ ∀ piece ∈ pieces, piece.IsShortest := by
  induction pieces with
  | nil => exact ⟨fun _ => nofun, fun _ => rfl⟩
  | cons piece pieces ih =>
    rw [canonicalOf_cons, bytesOf_cons, bytesOf_cons, List.forall_mem_cons, ← ih,
      ← piece.bytes_canonical_eq_iff]
    constructor
    · intro h
      have hlength := congrArg List.length h
      have hpiece := piece.length_canonical_le
      have hmore := length_canonicalOf_le pieces
      rw [List.length_append, List.length_append] at hlength
      exact List.append_inj h (by omega)
    · rintro ⟨hpiece, hmore⟩
      rw [hpiece, hmore]

/-! ## Sizes that are kept -/

/-- Whether the piece tells a native function by two bytes for which one is enough. -/
def Piece.IsLengthy : Piece → Prop
  | native form => form.IsLengthy
  | _ => False

instance : (piece : Piece) → Decidable piece.IsLengthy
  | .plain _ | .compact _ _ _ => inferInstanceAs (Decidable False)
  | .native form => inferInstanceAs (Decidable form.IsLengthy)

/-- How many native functions are told by two bytes for which one is enough. -/
def lengthyCount (pieces : List Piece) : Nat :=
  pieces.countP fun piece => piece.IsLengthy

theorem lengthyCount_eq_zero {pieces : List Piece} :
    lengthyCount pieces = 0 ↔ ∀ piece ∈ pieces, ¬ piece.IsLengthy := by
  rw [lengthyCount, List.countP_eq_zero]
  exact forall₂_congr fun piece _ => not_congr decide_eq_true_iff

/-- Only such a piece takes less in memory when it is written again: a compact integer takes four
bytes in any form. -/
theorem Piece.loadedSize_eq (piece : Piece) :
    piece.loadedSize = piece.canonical.loadedSize + if piece.IsLengthy then 1 else 0 := by
  cases piece with
  | plain bytes => rfl
  | compact value form h => rfl
  | native form =>
    rw [canonical, NativeForm.canonical]
    by_cases hlengthy : form.IsLengthy
    · rw [dif_pos hlengthy, if_pos (show (native form).IsLengthy from hlengthy)]
      cases form with
      | short opcode h => exact hlengthy.elim
      | long high low hge hlt => rfl
    · rw [dif_neg hlengthy, if_neg (show ¬ (native form).IsLengthy from hlengthy), Nat.add_zero]

/-- Pieces take as much memory as their canonical form, and one byte more for each function told by
two bytes for which one is enough. -/
theorem loadedSizeOf_eq (pieces : List Piece) :
    loadedSizeOf pieces = loadedSizeOf (canonicalOf pieces) + lengthyCount pieces := by
  induction pieces with
  | nil => rfl
  | cons piece pieces ih =>
    have hpiece := piece.loadedSize_eq
    rw [lengthyCount, List.countP_cons, ← lengthyCount, canonicalOf_cons, loadedSizeOf_cons,
      loadedSizeOf_cons]
    simp only [decide_eq_true_eq]
    omega

/-- Where no piece loses a byte, the size is kept. -/
theorem loadedSizeOf_canonicalOf {pieces : List Piece} (h : ∀ piece ∈ pieces, ¬ piece.IsLengthy) :
    loadedSizeOf (canonicalOf pieces) = loadedSizeOf pieces := by
  have hsize := loadedSizeOf_eq pieces
  rw [lengthyCount_eq_zero.2 h, Nat.add_zero] at hsize
  exact hsize.symm

/-! ## Scripts -/

variable {ctx : Context} {size used : UInt32} {spelled : List (List Piece)}
  {statements : List Expr}

theorem canonicalOf_flatten (spelled : List (List Piece)) :
    canonicalOf spelled.flatten = (spelled.map canonicalOf).flatten :=
  List.map_flatten

/-- Each statement has its own pieces. -/
theorem SpellsStatements.forall₂ (h : SpellsStatements ctx size used spelled statements) :
    List.Forall₂ (Spells ctx nestingLimit .main) spelled statements := by
  induction h with
  | nil hsize => exact .nil
  | cons hsize he hrest ih => exact .cons he ih

/-- Statements are written with the canonical forms of their pieces. -/
theorem encodeAll_of_spells (hnatives : ctx.natives.Indexed) (hcs : ctx.charset.Total)
    (h : List.Forall₂ (Spells ctx nestingLimit .main) spelled statements) :
    Expr.encodeAll ctx.charset statements = .ok (bytesOf (canonicalOf spelled.flatten)) := by
  induction h with
  | nil => rfl
  | cons he hrest ih =>
    rw [Expr.encodeAll, he.encode hnatives hcs, ih, List.flatten_cons, canonicalOf_append,
      bytesOf_append]
    rfl

/-- Statements take as much memory as the canonical form of what spells them. -/
theorem loadedSizeAll_of_spells (hnatives : ctx.natives.Indexed) (hcs : ctx.charset.Total)
    (h : List.Forall₂ (Spells ctx nestingLimit .main) spelled statements) :
    Expr.loadedSizeAll ctx.charset statements = loadedSizeOf (canonicalOf spelled.flatten) := by
  induction h with
  | nil => rfl
  | cons he hrest ih =>
    rw [Expr.loadedSizeAll, he.loadedSize_eq hnatives hcs, ih, List.flatten_cons,
      canonicalOf_append, loadedSizeOf_append]

/-- What is written for statements is the canonical form of what spells them, with its size in
memory. -/
theorem encodeSized_of_spells (hnatives : ctx.natives.Indexed) (hcs : ctx.charset.Total)
    (h : List.Forall₂ (Spells ctx nestingLimit .main) spelled statements) :
    encodeSized ctx.charset statements =
      .ok (bytesOf (canonicalOf spelled.flatten),
        .ofNat (loadedSizeOf (canonicalOf spelled.flatten))) := by
  rw [encodeSized, encodeAll_of_spells hnatives hcs h, loadedSizeAll_of_spells hnatives hcs h]
  rfl

/-- The canonical forms of their pieces spell the same statements. -/
theorem forall₂_canonical (h : List.Forall₂ (Spells ctx nestingLimit .main) spelled statements) :
    List.Forall₂ (Spells ctx nestingLimit .main) (spelled.map canonicalOf) statements := by
  induction h with
  | nil => exact .nil
  | cons he hrest ih => exact .cons he.canonical ih

/-- Statements in a row are those of a script of the size that they take, if the counter holds it.
Each of them begins before that size is reached, since none takes nothing. -/
theorem spellsStatements_of_lt {before : Nat}
    (h : List.Forall₂ (Spells ctx nestingLimit .main) spelled statements)
    (hsize : before + loadedSizeOf spelled.flatten < 0x100000000) :
    SpellsStatements ctx (.ofNat (before + loadedSizeOf spelled.flatten)) (.ofNat before) spelled
      statements := by
  induction h generalizing before with
  | nil => exact .nil (UInt32.le_refl _)
  | @cons pieces e more es he hrest ih =>
    have hpos := he.loadedSizeOf_pos
    rw [List.flatten_cons, loadedSizeOf_append, ← Nat.add_assoc] at hsize ⊢
    refine .cons (ofNat_lt_ofNat (by omega) hsize) he ?_
    rw [← UInt32.ofNat_add]
    exact ih hsize

namespace SpellsStatements

/-- The counter has reached the size behind the last statement. -/
theorem size_le (h : SpellsStatements ctx size used spelled statements) :
    size ≤ used + .ofNat (loadedSizeOf spelled.flatten) := by
  induction h with
  | @nil used hsize =>
    show size ≤ used + 0
    rwa [UInt32.add_zero]
  | cons hsize he hrest ih =>
    rwa [List.flatten_cons, loadedSizeOf_append, ← add_ofNat_add_ofNat]

/-- A script goes on to the same end if a larger size is declared that is reached there. -/
theorem mono {size' : UInt32} (h : SpellsStatements ctx size used spelled statements)
    (hle : size ≤ size') (hend : size' ≤ used + .ofNat (loadedSizeOf spelled.flatten)) :
    SpellsStatements ctx size' used spelled statements := by
  induction h with
  | @nil used hsize =>
    refine .nil ?_
    rwa [← UInt32.add_zero used]
  | cons hsize he hrest ih =>
    rw [List.flatten_cons, loadedSizeOf_append, ← add_ofNat_add_ofNat] at hend
    exact .cons (UInt32.lt_of_lt_of_le hsize hle) he (ih hend)

/-- Where no piece loses a byte, the canonical forms spell the same script. -/
theorem canonical (h : SpellsStatements ctx size used spelled statements)
    (hshort : ∀ piece ∈ spelled.flatten, ¬ piece.IsLengthy) :
    SpellsStatements ctx size used (spelled.map canonicalOf) statements := by
  induction h with
  | nil hsize => exact .nil hsize
  | cons hsize he hrest ih =>
    obtain ⟨hfirst, hmore⟩ := List.forall_mem_append.1 hshort
    refine .cons hsize he.canonical ?_
    rw [loadedSizeOf_canonicalOf hfirst]
    exact ih hmore

end SpellsStatements

/-- What was written is read back if its size fits the counter. -/
theorem decodeSized_of_lt (h : List.Forall₂ (Spells ctx nestingLimit .main) spelled statements)
    (hsize : loadedSizeOf spelled.flatten < 0x100000000) (more : List UInt8) :
    decodeSized ctx (.ofNat (loadedSizeOf spelled.flatten)) (bytesOf spelled.flatten ++ more) =
      .ok ((statements, .ofNat (loadedSizeOf spelled.flatten)), more) := by
  rw [← Nat.zero_add (loadedSizeOf spelled.flatten)] at hsize
  have hs := spellsStatements_of_lt h hsize
  rw [Nat.zero_add] at hs
  exact decodeSized_eq_ok.2 ⟨spelled, hs, rfl, rfl⟩

/-- A script in which no piece loses a byte is read back with the size that the reader has used,
however often the counter has begun again on the way. -/
theorem SpellsStatements.decodeSized_canonical
    (h : SpellsStatements ctx size 0 spelled statements)
    (hshort : ∀ piece ∈ spelled.flatten, ¬ piece.IsLengthy) (more : List UInt8) :
    decodeSized ctx (.ofNat (loadedSizeOf (canonicalOf spelled.flatten)))
        (bytesOf (canonicalOf spelled.flatten) ++ more) =
      .ok ((statements, .ofNat (loadedSizeOf (canonicalOf spelled.flatten))), more) := by
  have hused := h.mono h.size_le (UInt32.le_refl _)
  rw [UInt32.zero_add] at hused
  rw [loadedSizeOf_canonicalOf hshort]
  refine decodeSized_eq_ok.2 ⟨_, hused.canonical hshort, ?_, ?_⟩
  · rw [canonicalOf_flatten]
  · rw [← canonicalOf_flatten, loadedSizeOf_canonicalOf hshort]

/-- What the reader accepts can be written, in no more bytes than were consumed. What is written is
read back, as the same statements and with the size that was counted in writing, whatever follows,
if the counter of 32 bits holds that size; and also if it does not, unless a native function below
0x100 was told by two bytes. The consumed bytes are pieces that spell the statements; and however
they are taken for such pieces, they are written again as they were exactly if each piece was in the
form in which it is written: every compact integer in its shortest form, and no native function
below 0x100 told by two bytes. -/
theorem encodeSized_decodeSized {input rest : List UInt8} (hnatives : ctx.natives.Indexed)
    (hcs : ctx.charset.Total)
    (h : decodeSized ctx size input = .ok ((statements, used), rest)) :
    ∃ consumed bytes size', input = consumed ++ rest ∧
      encodeSized ctx.charset statements = .ok (bytes, size') ∧
      bytes.length ≤ consumed.length ∧
      (Expr.loadedSizeAll ctx.charset statements < 0x100000000 →
        ∀ more, decodeSized ctx size' (bytes ++ more) = .ok ((statements, size'), more)) ∧
      (∃ spelled, SpellsStatements ctx size 0 spelled statements ∧
        bytesOf spelled.flatten = consumed) ∧
      ∀ spelled, SpellsStatements ctx size 0 spelled statements →
        bytesOf spelled.flatten = consumed →
        ((∀ piece ∈ spelled.flatten, ¬ piece.IsLengthy) →
          ∀ more, decodeSized ctx size' (bytes ++ more) = .ok ((statements, size'), more)) ∧
        (bytes = consumed ↔ ∀ piece ∈ spelled.flatten, piece.IsShortest) := by
  obtain ⟨spelled, hs, hinput, hused⟩ := decodeSized_eq_ok.1 h
  have hencode := encodeSized_of_spells hnatives hcs hs.forall₂
  refine ⟨bytesOf spelled.flatten, _, _, hinput, hencode, length_canonicalOf_le _, ?_,
    ⟨spelled, hs, rfl⟩, ?_⟩
  · intro hsize
    rw [loadedSizeAll_of_spells hnatives hcs hs.forall₂] at hsize
    rw [canonicalOf_flatten] at hsize ⊢
    exact decodeSized_of_lt (forall₂_canonical hs.forall₂) hsize
  · intro spelled' hs' hbytes
    -- the same statements are written alike, however their bytes were taken for pieces
    have hencode' := encodeSized_of_spells hnatives hcs hs'.forall₂
    obtain ⟨hsame, hsize⟩ := Prod.mk.inj (Except.ok.inj (hencode.symm.trans hencode'))
    rw [hsame, hsize, ← hbytes]
    exact ⟨hs'.decodeSized_canonical, bytesOf_canonicalOf_eq_iff _⟩

/-- A reader that takes every native function for an ordinary one. -/
def Context.anyNative : Context where
  tables := ⟨"P", [⟨"None", 0⟩], [], []⟩
  natives := .any
  format := .extended
  charset := .windows1251

/-- A call of the function 0x80, told by two bytes, with a name whose index takes two bytes but
needs only one; and a text. -/
def longScript : List UInt8 := [0x60, 0x80, 0x21, 0x47, 0x00, 0x16, 0x1F, 0xC4, 0x00]

/-- A script with a lengthy function and a lengthy integer is written again and read back. -/
theorem encodeSized_decodeSized_long :
    ∃ consumed bytes size', longScript ++ [1] = consumed ++ [1] ∧
      encodeSized .windows1251 [.call (.native ⟨0x80, "Native128", false, 0, false⟩)
        [.const (.name 7)], .const (.text "Д")] = .ok (bytes, size') ∧
      bytes.length ≤ consumed.length ∧
      ∀ more, decodeSized .anyNative size' (bytes ++ more) =
        .ok (([.call (.native ⟨0x80, "Native128", false, 0, false⟩) [.const (.name 7)],
          .const (.text "Д")], size'), more) := by
  have hread : decodeSized .anyNative 11 (longScript ++ [1]) =
      .ok (([.call (.native ⟨0x80, "Native128", false, 0, false⟩) [.const (.name 7)],
        .const (.text "Д")], 11), [1]) := by
    rfl
  obtain ⟨consumed, bytes, size', hinput, hencode, hlength, hback, -⟩ :=
    encodeSized_decodeSized NativeTable.indexed_any Charset.total_windows1251 hread
  exact ⟨consumed, bytes, size', hinput, hencode, hlength, hback (by decide)⟩

/-- A call of the function 0x80 that is told by two bytes, a text of `n` letters, and a number. -/
def lengthyScript (n : Nat) : List UInt8 :=
  [0x60, 0x80, 0x16] ++ (0x1F :: (List.replicate n 0x41 ++ [0]) ++ [0x1D, 0, 0, 0, 0])

/-- What `lengthyScript` is read as. -/
def lengthyStatements (n : Nat) : List Expr :=
  [.call (.native ⟨0x80, "Native128", false, 0, false⟩) [], .const (.text (letters n)),
    .const (.int 0)]

/-- The pieces of `lengthyScript`, statement by statement. -/
def lengthyPieces (n : Nat) : List (List Piece) :=
  [[.native (.long 0x60 0x80 (by decide) (by decide)), .plain [0x16]],
    [.plain [0x1F], .plain (List.replicate n 0x41 ++ [0])], [.plain [0x1D], .plain [0, 0, 0, 0]]]

/-- The pieces spell the statements. -/
theorem spells_lengthy (n : Nat) :
    List.Forall₂ (Spells .anyNative nestingLimit .main) (lengthyPieces n)
      (lengthyStatements n) := by
  have hend : Spells .anyNative 127 .main [.plain [Atom.endOfParams.opcode]]
      (.atom .endOfParams) := .atom (by decide)
  have hlong : lookupOp? Context.anyNative.format .main
      (NativeForm.long 0x60 0x80 (by decide) (by decide)).opcode = none := by decide
  have hfirst : Opcode.firstNative ≤
      (NativeForm.long 0x60 0x80 (by decide) (by decide)).index := by decide
  have hcall : Spells .anyNative 128 .main _
      (.call (.native ⟨0x80, "Native128", false, 0, false⟩) []) :=
    .nativeCall hlong hfirst rfl (.nil hend) nofun
  have hstored : Charset.windows1251.encode? (letters n) = some (List.replicate n 0x41) :=
    Charset.encode?_letters rfl n
  have htext : SpellsConst .windows1251 [.plain (List.replicate n 0x41 ++ [0])]
      (.text (letters n)) := by
    rw [← Charset.decodeLossy_of_decode (Charset.decode_encode? hstored)]
    exact .text fun h => absurd (List.eq_of_mem_replicate h) (by decide)
  have hop : Means .anyNative .main ConstKind.text.opcode (.const .text) := by decide
  have hconst : Spells .anyNative 128 .main _ (.const (.text (letters n))) := .const hop htext
  have hint : Spells .anyNative 128 .main _ (.const (.int 0)) := .const (by decide) (.int 0)
  exact .cons hcall (.cons hconst (.cons hint .nil))

/-- A text of so many letters that it takes the counter from 3 to 0, and from 2 to the largest
number that it holds. -/
theorem counts_letters {n : Nat} (hn : n = 0xFFFFFFFB) :
    (3 : UInt32) +
      .ofNat (loadedSizeOf [.plain [0x1F], .plain (List.replicate n 0x41 ++ [0])]) = 0 ∧
    (2 : UInt32) + .ofNat (loadedSizeOf [.plain [0x1F], .plain (List.replicate n 0x41 ++ [0])]) =
      0xFFFFFFFF := by
  have hsize : loadedSizeOf [.plain [0x1F], .plain (List.replicate n 0x41 ++ [0])] = n + 2 := by
    simp [Piece.loadedSize, Piece.bytes]
    omega
  rw [hsize, hn]
  exact ⟨rfl, rfl⟩

/-- Behind the three statements the reader stands at 3, 0 and 5. -/
theorem decodeSized_lengthy {n : Nat} (hn : n = 0xFFFFFFFB) :
    decodeSized .anyNative 4 (lengthyScript n) = .ok ((lengthyStatements n, 5), []) := by
  obtain _ | ⟨hcall, _ | ⟨htext, _ | ⟨hint, -⟩⟩⟩ := spells_lengthy n
  have hspelled : SpellsStatements .anyNative 4 0 (lengthyPieces n) (lengthyStatements n) := by
    refine .cons (by decide) hcall (.cons (by decide) htext ?_)
    change SpellsStatements _ _ (3 + _) _ _
    rw [(counts_letters hn).1]
    exact .cons (by decide) hint (.nil (by decide))
  have hsize : loadedSizeOf (lengthyPieces n).flatten = n + 10 := by
    simp [lengthyPieces, Piece.loadedSize, Piece.bytes, NativeForm.tail]
    omega
  refine decodeSized_eq_ok.2 ⟨_, hspelled, ?_, ?_⟩
  · simp [lengthyScript, lengthyPieces, Piece.bytes, NativeForm.opcode, NativeForm.tail]
  · rw [hsize, hn]
    rfl

/-- The function 0x80 is written in one byte. -/
theorem tail_lengthy :
    (NativeForm.long 0x60 0x80 (by decide) (by decide)).canonical.tail = [] := by
  rw [NativeForm.canonical, dif_pos (by decide)]
  rfl

/-- Behind the first two statements as they are written the reader stands at 2 and at the largest
number. -/
theorem decodeSized_lengthy_canonical {n : Nat} (hn : n = 0xFFFFFFFB) :
    decodeSized .anyNative 4 (bytesOf (canonicalOf (lengthyPieces n).flatten)) =
      .ok (((lengthyStatements n).take 2, 0xFFFFFFFF), [0x1D, 0, 0, 0, 0]) := by
  obtain _ | ⟨hcall, _ | ⟨htext, -⟩⟩ := spells_lengthy n
  have hspelled : SpellsStatements .anyNative 4 0 (((lengthyPieces n).take 2).map canonicalOf)
      ((lengthyStatements n).take 2) := by
    refine .cons (by decide) hcall.canonical (.cons (by decide) htext.canonical ?_)
    change SpellsStatements _ _
      (2 + .ofNat (loadedSizeOf [.plain [0x1F], .plain (List.replicate n 0x41 ++ [0])])) _ _
    rw [(counts_letters hn).2]
    exact .nil (by decide)
  have hsize : loadedSizeOf (canonicalOf ((lengthyPieces n).take 2).flatten) = n + 4 := by
    simp [lengthyPieces, Piece.canonical, Piece.loadedSize, Piece.bytes, tail_lengthy]
    omega
  refine decodeSized_eq_ok.2 ⟨_, hspelled, ?_, ?_⟩
  · rw [← canonicalOf_flatten]
    simp [lengthyPieces, Piece.canonical, Piece.bytes]
  · rw [← canonicalOf_flatten, hsize, hn]
    rfl

/-- The size that is counted in writing does not do for reading if the counter has begun again and a
native function was told by two bytes for which one is enough. Behind the three statements the
reader stands at 3, 0 and 5, so that it goes on twice below the size 4. In writing, 2, 0xFFFFFFFF
and 4 are counted, and the second is no longer below the size that is returned. -/
theorem encodeSized_decodeSized_wraps :
    decodeSized .anyNative 4 (lengthyScript 0xFFFFFFFB) =
      .ok ((lengthyStatements 0xFFFFFFFB, 5), []) ∧
    ∃ bytes, encodeSized .windows1251 (lengthyStatements 0xFFFFFFFB) = .ok (bytes, 4) ∧
      decodeSized .anyNative 4 bytes =
        .ok (((lengthyStatements 0xFFFFFFFB).take 2, 0xFFFFFFFF), [0x1D, 0, 0, 0, 0]) := by
  obtain ⟨n, hn⟩ : ∃ n, n = 0xFFFFFFFB := ⟨_, rfl⟩
  rw [← hn]
  refine ⟨decodeSized_lengthy hn, _, ?_, decodeSized_lengthy_canonical hn⟩
  have hsize : loadedSizeOf (canonicalOf (lengthyPieces n).flatten) = n + 9 := by
    simp [lengthyPieces, Piece.canonical, Piece.loadedSize, Piece.bytes, tail_lengthy]
    omega
  have hencode := encodeSized_of_spells NativeTable.indexed_any Charset.total_windows1251
    (spells_lengthy n)
  rw [hsize, hn] at hencode
  rw [hn]
  exact hencode

end UnrealPackage.Script
