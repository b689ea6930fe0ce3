import UnrealPackage.Proofs.Script.PlainCalls
/-!
# Writing what was read

A piece has one form in which it is written: its canonical one. Putting every piece of a spelling
into that form spells the same expression (`Spells.canonical`), and gives the bytes and the size
with which the expression is written (`Spells.encode`, `Spells.loadedSize_eq`). So an accepted
script can be written, and its bytes can be compared piece by piece with those that were read.

Text needs a charset in which every byte is a character; in any other, bytes that stand for nothing
are read as a character that is not written as them.
-/

namespace UnrealPackage.Script

/-! ## Canonical pieces -/

namespace NativeForm

variable {form : NativeForm}

theorem IsLengthy.bounds (h : form.IsLengthy) :
    Opcode.firstNative ≤ form.index ∧ form.index ≤ 0xFF := by
  cases form with
  | short opcode hopcode => exact h.elim
  | long high low hge hlt => exact h

/-- An index for which one byte is enough is that byte. -/
theorem toNat_index (h : form.index ≤ 0xFF) : form.index.toUInt8.toNat = form.index := by
  rw [Nat.toUInt8_eq, UInt8.toNat_ofNat']
  omega

theorem firstNative_le_toUInt8 (form : NativeForm) (h : form.IsLengthy) :
    Opcode.firstNative ≤ form.index.toUInt8.toNat := by
  rw [toNat_index h.bounds.2]
  exact h.bounds.1

end NativeForm

/-- The beginning of a native call with one byte, if that is enough. -/
def NativeForm.canonical (form : NativeForm) : NativeForm :=
  if h : form.IsLengthy then .short form.index.toUInt8 (form.firstNative_le_toUInt8 h) else form

/-- The piece in the form in which it is written. -/
def Piece.canonical : Piece → Piece
  | plain bytes => plain bytes
  | compact value _ _ => compact value (Encode.compact value) (Decode.reads_compact value)
  | native form => native form.canonical

/-- Pieces in the forms in which they are written. -/
def canonicalOf (pieces : List Piece) : List Piece :=
  pieces.map Piece.canonical

@[simp] theorem canonicalOf_nil : canonicalOf [] = [] := rfl

@[simp] theorem canonicalOf_cons (piece : Piece) (pieces : List Piece) :
    canonicalOf (piece :: pieces) = piece.canonical :: canonicalOf pieces := rfl

@[simp] theorem canonicalOf_append (pieces more : List Piece) :
    canonicalOf (pieces ++ more) = canonicalOf pieces ++ canonicalOf more :=
  List.map_append

/-! ## The beginning of native calls -/

namespace NativeForm

variable (form : NativeForm)

/-- A native function is told by one or two bytes, so its index is at most the greatest. -/
theorem index_le_lastNative : form.index ≤ Opcode.lastNative := by
  cases form with
  | short opcode h =>
    have hopcode := opcode.toNat_lt
    rw [index, Opcode.lastNative]
    omega
  | long high low hge hlt =>
    have hlow := low.toNat_lt
    rw [index, Opcode.lastNative, Opcode.extendedNative]
    unfold Opcode.firstNative at hlt
    have hbase : (0x60 : UInt8).toNat = 0x60 := rfl
    omega

variable {form}

/-- The two parts of an index that takes two bytes. -/
theorem index_parts {high low : UInt8} (hge : Opcode.extendedNative ≤ high)
    (hlt : high.toNat < Opcode.firstNative) :
    Opcode.extendedNative.toNat + (long high low hge hlt).index / 256 = high.toNat ∧
      (long high low hge hlt).index % 256 = low.toNat := by
  have hlow := low.toNat_lt
  have hbase : Opcode.extendedNative.toNat ≤ high.toNat := UInt8.le_iff_toNat_le.1 hge
  rw [index]
  omega

/-- A native function is written with the canonical form of any beginning that tells its index. -/
theorem bytes_canonical {f : NativeFunction} (hindex : f.index = form.index)
    (hfirst : Opcode.firstNative ≤ form.index) :
    f.opcode :: f.low = form.canonical.opcode :: form.canonical.tail := by
  rw [NativeFunction.opcode, NativeFunction.low, hindex]
  cases form with
  | short opcode h =>
    have hbyte : ¬ 0xFF < opcode.toNat := Nat.not_lt.2 (Nat.le_of_lt_succ opcode.toNat_lt)
    rw [index, if_neg hbyte, if_neg hbyte, Nat.toUInt8_eq, UInt8.ofNat_toNat]
    rfl
  | long high low hge hlt =>
    rw [canonical]
    by_cases hbyte : (long high low hge hlt).index ≤ 0xFF
    · rw [if_neg (Nat.not_lt.2 hbyte), if_neg (Nat.not_lt.2 hbyte), dif_pos ⟨hfirst, hbyte⟩]
      rfl
    · obtain ⟨hhigh, hlow⟩ := index_parts hge hlt
      rw [if_pos (Nat.lt_of_not_le hbyte), if_pos (Nat.lt_of_not_le hbyte),
        dif_neg fun h => hbyte h.2, hhigh, hlow, Nat.toUInt8_eq, Nat.toUInt8_eq,
        UInt8.ofNat_toNat, UInt8.ofNat_toNat]
      rfl

theorem index_canonical : form.canonical.index = form.index := by
  rw [canonical]
  split
  · next h => exact toNat_index h.bounds.2
  · rfl

end NativeForm

/-- No table has an opcode that is the index of a native function. -/
theorem lookup_eq_none {α : Type} {entries : List (UInt8 × α)} {opcode : UInt8}
    (h : ∀ entry ∈ entries, entry.1.toNat < Opcode.firstNative)
    (hopcode : Opcode.firstNative ≤ opcode.toNat) : entries.lookup opcode = none := by
  cases hlookup : entries.lookup opcode with
  | none => rfl
  | some found => exact absurd (h _ (mem_of_lookup hlookup)) (Nat.not_lt.2 hopcode)

/-- The opcodes of native functions are in no table. -/
theorem lookupOp?_eq_none (format : ScriptFormat) (table : OpcodeTable) {opcode : UInt8}
    (h : Opcode.firstNative ≤ opcode.toNat) : lookupOp? format table opcode = none := by
  have hops : opcodeTable.lookup opcode = none := lookup_eq_none (by decide) h
  have hcasts : mainCasts.lookup opcode = none := lookup_eq_none (by decide) h
  have hconversions : (conversionCasts format).lookup opcode = none :=
    lookup_eq_none (by cases format <;> decide) h
  have hmain : mainOp? format opcode = none := by
    rw [mainOp?, hops]
    show (mainCastName? format opcode).map Op.cast = none
    rw [mainCastName?, hcasts, ite_self]
    rfl
  unfold lookupOp?
  rw [hconversions]
  cases table <;> exact hmain

/-- The canonical form begins with no opcode of the table either. -/
theorem NativeForm.lookup_canonical {form : NativeForm} {format : ScriptFormat}
    {table : OpcodeTable} (h : lookupOp? format table form.opcode = none) :
    lookupOp? format table form.canonical.opcode = none := by
  rw [canonical]
  split
  · next hlengthy => exact lookupOp?_eq_none format table (form.firstNative_le_toUInt8 hlengthy)
  · exact h

/-! ## The same spelling -/

variable {ctx : Context} {levels : Nat} {table : OpcodeTable} {pieces : List Piece} {e : Expr}
  {params : List Expr}

/-- In its canonical form, a constant is spelled as well. -/
theorem SpellsConst.canonical {cs : Charset} {c : Const} (h : SpellsConst cs pieces c) :
    SpellsConst cs (canonicalOf pieces) c := by
  cases h with
  | int v => exact .int v
  | float v => exact .float v
  | text hzero => exact .text hzero
  | wideText hzero hs => exact .wideText hzero hs
  | name hform => exact .name _
  | byte v => exact .byte v
  | shortInt v => exact .shortInt v
  | rotator pitch yaw roll => exact .rotator pitch yaw roll
  | vector x y z => exact .vector x y z

theorem SpellsLabels.canonical {last : NameIndex} {labels : List Label}
    (h : SpellsLabels last pieces labels) : SpellsLabels last (canonicalOf pieces) labels := by
  induction h with
  | last hform hname => exact .last _ hname
  | cons hform hname hrest ih => exact .cons _ hname ih

/-- In their canonical form, parameters are spelled as well. -/
theorem SpellsParams.canonical {next : Spelling}
    (hnext : ∀ ⦃pieces e⦄, next pieces e → next (canonicalOf pieces) e)
    (h : SpellsParams next pieces params) : SpellsParams next (canonicalOf pieces) params := by
  induction h with
  | nil hend => exact .nil (hnext hend)
  | cons he hrest ih =>
    rw [canonicalOf_append]
    exact .cons (hnext he) ih

/-- The canonical forms of the pieces spell the same expression. -/
theorem Spells.canonical (h : Spells ctx levels table pieces e) :
    Spells ctx levels table (canonicalOf pieces) e := by
  induction levels generalizing table pieces e with
  | zero => cases h
  | succ levels ih =>
    have ihParams : ∀ {pieces params}, SpellsParams (Spells ctx levels table) pieces params →
        SpellsParams (Spells ctx levels table) (canonicalOf pieces) params :=
      fun h => h.canonical fun _ _ => ih
    cases h with
    | atom hop => exact .atom hop
    | reference hop hform => exact .reference hop (Decode.reads_compact _)
    | const hop hc => exact .const hop hc.canonical
    | wrap hop h => exact .wrap hop (ih h)
    | pair hop h₁ h₂ =>
      rw [canonicalOf_cons, canonicalOf_append]
      exact .pair hop (ih h₁) (ih h₂)
    | context hop h₁ h₂ =>
      rw [canonicalOf_cons, canonicalOf_append]
      exact .context hop (ih h₁) (ih h₂)
    | typed hop hform h => exact .typed hop (Decode.reads_compact _) (ih h)
    | compare hop hform h₁ h₂ =>
      rw [canonicalOf_cons, canonicalOf_cons, canonicalOf_append]
      exact .compare hop (Decode.reads_compact _) (ih h₁) (ih h₂)
    | switch hop h => exact .switch hop (ih h)
    | jump hop => exact .jump hop
    | jumpIfNot hop h => exact .jumpIfNot hop (ih h)
    | assert hop h => exact .assert hop (ih h)
    | caseOf hop hoffset h => exact .caseOf hop hoffset (ih h)
    | caseElse hop => exact .caseElse hop
    | labelTable hop hnone h => exact .labelTable hop hnone h.canonical
    | new hop h₁ h₂ h₃ h₄ =>
      rw [canonicalOf_cons, canonicalOf_append, canonicalOf_append, canonicalOf_append]
      exact .new hop (ih h₁) (ih h₂) (ih h₃) (ih h₄)
    | skip hop h => exact .skip hop (ih h)
    | virtualCall hop hform h htakes =>
      exact .virtualCall hop (Decode.reads_compact _) (ihParams h) htakes
    | globalCall hop hform h htakes =>
      exact .globalCall hop (Decode.reads_compact _) (ihParams h) htakes
    | finalCall hop hform h htakes =>
      exact .finalCall hop (Decode.reads_compact _) (ihParams h) htakes
    | @nativeCall form f pieces params hop hfirst hf h htakes =>
      have hindex : form.canonical.index = form.index := NativeForm.index_canonical
      rw [← hindex] at hfirst hf
      exact .nativeCall (NativeForm.lookup_canonical hop) hfirst hf (ihParams h) htakes
    | iterator hop h =>
      rw [canonicalOf_cons, canonicalOf_append]
      exact .iterator hop (ih h)
    | conversion hop h => exact .conversion hop (ih h)
    | cast hop h => exact .cast hop (ih h)
    | remove hop h₁ h₂ h₃ =>
      rw [canonicalOf_cons, canonicalOf_append, canonicalOf_append]
      exact .remove hop (ih h₁) (ih h₂) (ih h₃)

/-! ## The bytes that are written -/

section

attribute [local simp] Piece.canonical Piece.bytes Expr.encode Expr.encodeAll Callee.encode
  Label.encode Encode.compactRef except_ok_bind pure Except.pure

/-- A constant is written with the canonical forms of its pieces. -/
theorem SpellsConst.encode {cs : Charset} {c : Const} (hcs : cs.Total)
    (h : SpellsConst cs pieces c) : c.encode cs = bytesOf (canonicalOf pieces) := by
  cases h with
  | int | float | name | byte | shortInt | rotator | vector => simp [Const.encode]
  | text hzero => simp [Const.encode, Encode.textUntilZero, hcs.encodeLossy_decodeLossy]
  | @wideText units s hzero hs =>
    have hunits : Utf16.encode s.toList = units :=
      Utf16.encode_of_decode (eq_map_some_of_textOf? hs)
    simp [Const.encode, Encode.wideTextUntilZero, hunits]

/-- Labels are written in their canonical form. -/
theorem SpellsLabels.encode {last : NameIndex} {labels : List Label}
    (h : SpellsLabels last pieces labels) :
    labels.flatMap Label.encode = bytesOf (canonicalOf pieces) := by
  induction h with
  | last hform hname => simp
  | cons hform hname hrest ih => simp [ih]

/-- Operands are written in a row, and the end of the parameters behind them. -/
theorem SpellsParams.encode {next : Spelling} {cs : Charset}
    (hnext : ∀ ⦃pieces e⦄, next pieces e → e.encode cs = .ok (bytesOf (canonicalOf pieces)))
    (h : SpellsParams next pieces params) :
    ∃ bytes, Expr.encodeAll cs params = .ok bytes ∧
      bytesOf (canonicalOf pieces) = bytes ++ [Atom.endOfParams.opcode] := by
  induction h with
  | nil hend => exact ⟨[], rfl, (Except.ok.inj (hnext hend)).symm⟩
  | cons he hrest ih =>
    obtain ⟨bytes, hbytes, hmore⟩ := ih
    refine ⟨_, by simp [hnext he, hbytes]; rfl, ?_⟩
    simp [hmore]

/-- An expression is written with the canonical forms of its pieces. -/
theorem Spells.encode (hnatives : ctx.natives.Indexed) (hcs : ctx.charset.Total)
    (h : Spells ctx levels table pieces e) :
    e.encode ctx.charset = .ok (bytesOf (canonicalOf pieces)) := by
  induction levels generalizing table pieces e with
  | zero => cases h
  | succ levels ih =>
    cases h with
    | atom | reference | jump | caseElse => simp
    | const hop hc => simp [hc.encode hcs]
    | wrap hop h | typed hop hform h | switch hop h | jumpIfNot hop h | assert hop h | skip hop h
    | iterator hop h | conversion hop h | cast hop h => simp [ih h]
    | pair hop h₁ h₂ | context hop h₁ h₂ | compare hop hform h₁ h₂ => simp [ih h₁, ih h₂]
    | caseOf hop hoffset h => simp [ih h, hoffset]
    | labelTable hop hnone h => simp [h.encode]
    | new hop h₁ h₂ h₃ h₄ => simp [ih h₁, ih h₂, ih h₃, ih h₄]
    | remove hop h₁ h₂ h₃ => simp [ih h₁, ih h₂, ih h₃]
    | virtualCall hop hform h htakes | globalCall hop hform h htakes
    | finalCall hop hform h htakes =>
      obtain ⟨bytes, hbytes, hpieces⟩ := h.encode fun _ _ => ih
      simp [hbytes, hpieces]
    | @nativeCall form f pieces params hop hfirst hf h htakes =>
      obtain ⟨bytes, hbytes, hpieces⟩ := h.encode fun _ _ => ih
      have hindex := hnatives hf
      have hcallee : (Callee.native f).encode = .ok (f.opcode :: f.low) :=
        Callee.encode_native (hindex ▸ hfirst) (hindex ▸ form.index_le_lastNative)
      rw [NativeForm.bytes_canonical hindex hfirst] at hcallee
      simp only [Expr.encode, hcallee, hbytes, except_ok_bind]
      simp [hpieces]

end

/-! ## The size that is counted -/

section

attribute [local simp] Piece.canonical Piece.loadedSize Piece.bytes Expr.loadedSize
  Expr.loadedSizeAll Callee.loadedSize

/-- A constant takes as much memory as its canonical form. -/
theorem SpellsConst.loadedSize_eq {cs : Charset} {c : Const} (hcs : cs.Total)
    (h : SpellsConst cs pieces c) : c.loadedSize cs = loadedSizeOf (canonicalOf pieces) := by
  have hbytes := congrArg List.length (h.encode hcs)
  cases h with
  | name => simp [Const.loadedSize]
  | int | float | byte | shortInt | rotator | vector => simp [Const.loadedSize, Const.encode]
  | text | wideText =>
    rw [Const.loadedSize, hbytes]
    · simp
    · rintro name ⟨⟩

/-- Labels take eight bytes of memory each, in their canonical form. -/
theorem SpellsLabels.loadedSize_eq {last : NameIndex} {labels : List Label}
    (h : SpellsLabels last pieces labels) :
    8 * labels.length = loadedSizeOf (canonicalOf pieces) := by
  induction h with
  | last hform hname => simp
  | cons hform hname hrest ih =>
    simp [← ih]
    omega

/-- The end of the parameters takes one byte. -/
theorem SpellsParams.loadedSize_eq {next : Spelling} {cs : Charset}
    (hnext : ∀ ⦃pieces e⦄, next pieces e → e.loadedSize cs = loadedSizeOf (canonicalOf pieces))
    (h : SpellsParams next pieces params) :
    Expr.loadedSizeAll cs params + 1 = loadedSizeOf (canonicalOf pieces) := by
  induction h with
  | nil hend => exact hnext hend
  | cons he hrest ih =>
    have hfirst := hnext he
    simp
    omega

/-- What an expression takes in memory is counted by its canonical pieces. -/
theorem Spells.loadedSize_eq (hnatives : ctx.natives.Indexed) (hcs : ctx.charset.Total)
    (h : Spells ctx levels table pieces e) :
    e.loadedSize ctx.charset = loadedSizeOf (canonicalOf pieces) := by
  induction levels generalizing table pieces e with
  | zero => cases h
  | succ levels ih =>
    cases h with
    | atom | reference | jump | caseElse => simp
    | const hop hc => simp [hc.loadedSize_eq hcs]
    | wrap hop h | conversion hop h | cast hop h => simp [ih h]
    | typed hop hform h | switch hop h | jumpIfNot hop h | assert hop h | caseOf hop hoffset h
    | skip hop h | iterator hop h =>
      simp [ih h]
      omega
    | pair hop h₁ h₂ | context hop h₁ h₂ | compare hop hform h₁ h₂ =>
      simp [ih h₁, ih h₂]
      omega
    | labelTable hop hnone h => simp [h.loadedSize_eq]
    | new hop h₁ h₂ h₃ h₄ =>
      simp [ih h₁, ih h₂, ih h₃, ih h₄]
      omega
    | remove hop h₁ h₂ h₃ =>
      simp [ih h₁, ih h₂, ih h₃]
      omega
    | virtualCall hop hform h htakes | globalCall hop hform h htakes
    | finalCall hop hform h htakes =>
      have hparams := h.loadedSize_eq fun _ _ => ih
      simp
      omega
    | @nativeCall form f pieces params hop hfirst hf h htakes =>
      have hparams := h.loadedSize_eq fun _ _ => ih
      have hlow : f.low = form.canonical.tail :=
        (List.cons.inj (NativeForm.bytes_canonical (hnatives hf) hfirst)).2
      rw [Expr.loadedSize, Callee.loadedSize_native, hlow]
      simp
      omega

end

end UnrealPackage.Script
