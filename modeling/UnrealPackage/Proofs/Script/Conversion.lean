import UnrealPackage.Proofs.Script.Spelled
/-!
# The reach of a conversion

The opcode of a conversion makes the conversion table active for the expression behind it. The
table is handed on: an operand of that expression is read with it as well, at any depth. The
statements behind the conversion are read with the main table again.

The two tables differ where the conversion table has casts of its own. One of them, 0x41, is the
removal of array elements in the main table; the others are no opcode of the main table, and 0x60,
0x62 and 0x63 begin calls of native functions there. `OpcodesShared` says of a spelling that none of
these opcodes begins an expression in it; the tables agree on such a spelling
(`spells_conversion_iff`), and on no other.
-/

namespace UnrealPackage.Script

variable {ctx : Context} {levels : Nat} {table : OpcodeTable} {pieces : List Piece} {e : Expr}

/-! ## Opcodes -/

/-- A cast that the conversion table has for itself is no opcode of the main table, or removes array
elements there. -/
theorem mainOp?_of_mem_conversionCasts :
    ∀ format, ∀ entry ∈ conversionCasts format,
      mainOp? format entry.1 = none ∨ mainOp? format entry.1 = some .remove := by
  intro format
  cases format <;> decide

/-- The conversion table keeps what the main table says, but for the removal of array elements. -/
theorem Means.conversion_of_main {opcode : UInt8} {op : Op} (h : Means ctx .main opcode op)
    (hop : op ≠ .remove) : Means ctx .conversion opcode op := by
  unfold Means lookupOp? at h ⊢
  split
  · next name hcast =>
    have hmain : mainOp? ctx.format opcode = some op := h
    rcases mainOp?_of_mem_conversionCasts ctx.format _ (mem_of_lookup hcast) with hnone | hremove
    · rw [hmain] at hnone
      cases hnone
    · rw [hmain] at hremove
      exact absurd (Option.some.inj hremove) hop
  · exact h

/-- The conversion table has no removal of array elements. -/
theorem not_means_conversion_remove : ¬ Means ctx .conversion Opcode.remove .remove := by
  unfold Means
  cases ctx.format <;> decide

/-! ## Expressions without opcodes of one table -/

mutual

/-- Whether the expression has no removal of array elements in it. -/
def Expr.RemoveFree : Expr → Prop
  | .wrap _ e | .typed _ _ e | .switch _ e | .jumpIfNot _ e | .assert _ _ e | .caseOf _ e
  | .skip _ e | .iterator e _ | .conversion e | .cast _ _ e => e.RemoveFree
  | .pair _ e₁ e₂ | .context _ e₁ _ _ e₂ | .compare _ _ e₁ e₂ => e₁.RemoveFree ∧ e₂.RemoveFree
  | .new e₁ e₂ e₃ e₄ => e₁.RemoveFree ∧ e₂.RemoveFree ∧ e₃.RemoveFree ∧ e₄.RemoveFree
  | .call _ params => Expr.RemoveFreeAll params
  | .atom _ | .reference _ _ | .const _ | .jump _ | .caseElse _ | .labelTable _ => True
  | .remove _ _ _ => False

/-- Whether none of the expressions has a removal of array elements in it. -/
def Expr.RemoveFreeAll : List Expr → Prop
  | [] => True
  | e :: es => e.RemoveFree ∧ Expr.RemoveFreeAll es

end

/-- Whether the pieces that begin a native call are no opcodes of the conversion table. -/
def NativesShared (ctx : Context) (pieces : List Piece) : Prop :=
  ∀ form, Piece.native form ∈ pieces → lookupOp? ctx.format .conversion form.opcode = none

/-- Whether none of the opcodes in a spelling of the expression is given to a cast by the conversion
table alone. -/
structure OpcodesShared (ctx : Context) (pieces : List Piece) (e : Expr) : Prop where
  removeFree : e.RemoveFree
  natives : NativesShared ctx pieces

section

variable {more : List Piece} {piece : Piece}

@[simp] theorem nativesShared_nil : NativesShared ctx [] :=
  nofun

@[simp] theorem nativesShared_append :
    NativesShared ctx (pieces ++ more) ↔ NativesShared ctx pieces ∧ NativesShared ctx more := by
  simp only [NativesShared, List.mem_append, or_imp, forall_and]

@[simp] theorem nativesShared_plain {bytes : List UInt8} :
    NativesShared ctx (.plain bytes :: pieces) ↔ NativesShared ctx pieces := by
  simp [NativesShared]

@[simp] theorem nativesShared_compact {v : Int32} {form : List UInt8}
    {h : Decode.Reads Decode.compact form v} :
    NativesShared ctx (.compact v form h :: pieces) ↔ NativesShared ctx pieces := by
  simp [NativesShared]

@[simp] theorem nativesShared_native {form : NativeForm} :
    NativesShared ctx (.native form :: pieces) ↔
      lookupOp? ctx.format .conversion form.opcode = none ∧ NativesShared ctx pieces := by
  simp [NativesShared]

end

/-- Constants begin no native call. -/
theorem SpellsConst.nativesShared {c : Const} (h : SpellsConst ctx.charset pieces c) :
    NativesShared ctx pieces := by
  cases h <;> simp

/-- Labels begin no native call. -/
theorem SpellsLabels.nativesShared {last : NameIndex} {labels : List Label}
    (h : SpellsLabels last pieces labels) : NativesShared ctx pieces := by
  induction h with
  | last hform hname => simp
  | cons hform hname hrest ih => simpa using ih

/-! ## One spelling for both tables -/

/-- Operands in a row are spelled alike if each of them is. -/
theorem SpellsParams.conversion_of_main {next next' : Spelling} {params : List Expr}
    (hnext : ∀ ⦃pieces e⦄, next pieces e → e.RemoveFree → NativesShared ctx pieces → next' pieces e)
    (h : SpellsParams next pieces params) (hremove : Expr.RemoveFreeAll params)
    (hnatives : NativesShared ctx pieces) : SpellsParams next' pieces params := by
  induction h with
  | nil hend => exact .nil (hnext hend trivial hnatives)
  | cons he hrest ih =>
    rw [nativesShared_append] at hnatives
    exact .cons (hnext he hremove.1 hnatives.1) (ih hremove.2 hnatives.2)

/-- A spelling whose opcodes are shared means the same where the conversion table is active. -/
theorem Spells.conversion_of_main (h : Spells ctx levels .main pieces e) (hremove : e.RemoveFree)
    (hnatives : NativesShared ctx pieces) : Spells ctx levels .conversion pieces e := by
  induction levels generalizing pieces e with
  | zero => cases h
  | succ levels ih =>
    have ihParams : ∀ {pieces params}, SpellsParams (Spells ctx levels .main) pieces params →
        Expr.RemoveFreeAll params → NativesShared ctx pieces →
        SpellsParams (Spells ctx levels .conversion) pieces params :=
      fun h => h.conversion_of_main fun _ _ => ih
    show Phrase ctx .conversion _ _ pieces e
    cases h with
    | remove hop h₁ h₂ h₃ => cases hremove
    | atom hop => exact .atom (hop.conversion_of_main (by simp))
    | reference hop hform => exact .reference (hop.conversion_of_main (by simp)) hform
    | const hop hc => exact .const (hop.conversion_of_main (by simp)) hc
    | jump hop => exact .jump (hop.conversion_of_main (by simp))
    | caseElse hop => exact .caseElse (hop.conversion_of_main (by simp))
    | labelTable hop hnone h => exact .labelTable (hop.conversion_of_main (by simp)) hnone h
    | conversion hop h => exact .conversion (hop.conversion_of_main (by simp)) h
    | wrap hop h =>
      simp only [nativesShared_plain] at hnatives
      exact .wrap (hop.conversion_of_main (by simp)) (ih h hremove hnatives)
    | pair hop h₁ h₂ =>
      simp only [nativesShared_plain, nativesShared_append] at hnatives
      exact .pair (hop.conversion_of_main (by simp)) (ih h₁ hremove.1 hnatives.1)
        (ih h₂ hremove.2 hnatives.2)
    | context hop h₁ h₂ =>
      simp only [nativesShared_plain, nativesShared_append] at hnatives
      exact .context (hop.conversion_of_main (by simp)) (ih h₁ hremove.1 hnatives.1)
        (ih h₂ hremove.2 hnatives.2)
    | typed hop htype h =>
      simp only [nativesShared_plain, nativesShared_compact] at hnatives
      exact .typed (hop.conversion_of_main (by simp)) htype (ih h hremove hnatives)
    | compare hop hstruct h₁ h₂ =>
      simp only [nativesShared_plain, nativesShared_compact, nativesShared_append] at hnatives
      exact .compare (hop.conversion_of_main (by simp)) hstruct (ih h₁ hremove.1 hnatives.1)
        (ih h₂ hremove.2 hnatives.2)
    | switch hop h =>
      simp only [nativesShared_plain] at hnatives
      exact .switch (hop.conversion_of_main (by simp)) (ih h hremove hnatives)
    | jumpIfNot hop h =>
      simp only [nativesShared_plain] at hnatives
      exact .jumpIfNot (hop.conversion_of_main (by simp)) (ih h hremove hnatives)
    | assert hop h =>
      simp only [nativesShared_plain] at hnatives
      exact .assert (hop.conversion_of_main (by simp)) (ih h hremove hnatives)
    | caseOf hop hoffset h =>
      simp only [nativesShared_plain] at hnatives
      exact .caseOf (hop.conversion_of_main (by simp)) hoffset (ih h hremove hnatives)
    | new hop h₁ h₂ h₃ h₄ =>
      simp only [nativesShared_plain, nativesShared_append] at hnatives
      obtain ⟨hr₁, hr₂, hr₃, hr₄⟩ := hremove
      obtain ⟨hn₁, hn₂, hn₃, hn₄⟩ := hnatives
      exact .new (hop.conversion_of_main (by simp)) (ih h₁ hr₁ hn₁) (ih h₂ hr₂ hn₂) (ih h₃ hr₃ hn₃)
        (ih h₄ hr₄ hn₄)
    | skip hop h =>
      simp only [nativesShared_plain] at hnatives
      exact .skip (hop.conversion_of_main (by simp)) (ih h hremove hnatives)
    | virtualCall hop hname h htakes =>
      simp only [nativesShared_plain, nativesShared_compact] at hnatives
      exact .virtualCall (hop.conversion_of_main (by simp)) hname (ihParams h hremove hnatives)
        htakes
    | globalCall hop hname h htakes =>
      simp only [nativesShared_plain, nativesShared_compact] at hnatives
      exact .globalCall (hop.conversion_of_main (by simp)) hname (ihParams h hremove hnatives)
        htakes
    | finalCall hop hfunction h htakes =>
      simp only [nativesShared_plain, nativesShared_compact] at hnatives
      exact .finalCall (hop.conversion_of_main (by simp)) hfunction (ihParams h hremove hnatives)
        htakes
    | nativeCall hop hfirst hf h htakes =>
      rw [nativesShared_native] at hnatives
      exact .nativeCall hnatives.1 hfirst hf (ihParams h hremove hnatives.2) htakes
    | iterator hop h =>
      simp only [nativesShared_plain, nativesShared_append] at hnatives
      exact .iterator (hop.conversion_of_main (by simp)) (ih h hremove hnatives.1)
    | cast hop h =>
      simp only [nativesShared_plain] at hnatives
      exact .cast (hop.conversion_of_main (by simp)) (ih h hremove hnatives)

/-- Operands in a row have shared opcodes if each of them has. -/
theorem SpellsParams.opcodesShared {next : Spelling} {params : List Expr}
    (hnext : ∀ ⦃pieces e⦄, next pieces e → OpcodesShared ctx pieces e)
    (h : SpellsParams next pieces params) :
    Expr.RemoveFreeAll params ∧ NativesShared ctx pieces := by
  induction h with
  | nil hend => exact ⟨trivial, (hnext hend).natives⟩
  | cons he hrest ih =>
    obtain ⟨hremove, hnatives⟩ := hnext he
    exact ⟨⟨hremove, ih.1⟩, nativesShared_append.2 ⟨hnatives, ih.2⟩⟩

/-- Where the conversion table is active, no opcode is taken for what only the main table says. -/
theorem Spells.opcodesShared (h : Spells ctx levels .conversion pieces e) :
    OpcodesShared ctx pieces e := by
  induction levels generalizing pieces e with
  | zero => cases h
  | succ levels ih =>
    have ihParams : ∀ {pieces params}, SpellsParams (Spells ctx levels .conversion) pieces params →
        Expr.RemoveFreeAll params ∧ NativesShared ctx pieces :=
      fun h => h.opcodesShared fun _ _ => ih
    cases h with
    | remove hop h₁ h₂ h₃ => exact absurd hop not_means_conversion_remove
    | nativeCall hop hfirst hf h htakes =>
      exact ⟨(ihParams h).1, nativesShared_native.2 ⟨hop, (ihParams h).2⟩⟩
    | atom hop | reference hop hform | jump hop | caseElse hop => exact ⟨trivial, by simp⟩
    | const hop hc => exact ⟨trivial, nativesShared_plain.2 hc.nativesShared⟩
    | labelTable hop hnone h => exact ⟨trivial, nativesShared_plain.2 h.nativesShared⟩
    | wrap hop h | typed hop htype h | switch hop h | jumpIfNot hop h | assert hop h
    | caseOf hop hoffset h | skip hop h | iterator hop h | conversion hop h | cast hop h =>
      exact ⟨(ih h).removeFree, by simpa using (ih h).natives⟩
    | pair hop h₁ h₂ | context hop h₁ h₂ | compare hop hstruct h₁ h₂ =>
      exact ⟨⟨(ih h₁).removeFree, (ih h₂).removeFree⟩, by
        simpa using And.intro (ih h₁).natives (ih h₂).natives⟩
    | new hop h₁ h₂ h₃ h₄ =>
      refine ⟨⟨(ih h₁).removeFree, (ih h₂).removeFree, (ih h₃).removeFree, (ih h₄).removeFree⟩, ?_⟩
      simp [(ih h₁).natives, (ih h₂).natives, (ih h₃).natives, (ih h₄).natives]
    | virtualCall hop hname h htakes | globalCall hop hname h htakes
    | finalCall hop hfunction h htakes =>
      exact ⟨(ihParams h).1, by simpa using (ihParams h).2⟩

/-- What is spelled for the main table is spelled for the conversion table exactly if its opcodes
are shared. -/
theorem spells_conversion_iff (h : Spells ctx levels .main pieces e) :
    Spells ctx levels .conversion pieces e ↔ OpcodesShared ctx pieces e :=
  ⟨Spells.opcodesShared, fun hshared => h.conversion_of_main hshared.removeFree hshared.natives⟩

/-! ## What is read behind a conversion -/

open ScriptDecode

/-- The bytes that are read as an expression are those that spell it. -/
theorem reads_iff_spells {front : List UInt8} {size : Nat} :
    Reads (readExpr ctx levels table) front size e ↔
      ∃ pieces, Spells ctx levels table pieces e ∧ bytesOf pieces = front ∧
        UInt32.ofNat (loadedSizeOf pieces) = .ofNat size := by
  constructor
  · intro h
    obtain ⟨pieces, hs, hrest, hused⟩ := readExpr_accepts ctx levels table (h [] 0)
    rw [List.append_nil, List.append_nil] at hrest
    rw [UInt32.zero_add, UInt32.zero_add] at hused
    exact ⟨pieces, hs, hrest.symm, hused.symm⟩
  · rintro ⟨pieces, hs, rfl, hsize⟩
    exact (Spells.reads ctx levels table hs).congr_ofNat hsize

/-- All spellings by the same bytes are counted alike. -/
theorem Spells.ofNat_loadedSizeOf {size : Nat} (hs : Spells ctx levels table pieces e)
    (h : Reads (readExpr ctx levels table) (bytesOf pieces) size e) :
    UInt32.ofNat (loadedSizeOf pieces) = .ofNat size := by
  have hread := (Spells.reads ctx levels table hs [] 0).symm.trans (h [] 0)
  simpa using hread

/-- The cast behind the opcode of a conversion has its operand in the conversion table. -/
theorem reads_conversion_cast_iff {opcode : UInt8} {name : String}
    (hop : Means ctx .conversion opcode (.cast name)) {front : List UInt8} {size : Nat} :
    Reads (readExpr ctx (levels + 2) .main) (Opcode.conversion :: opcode :: front) (2 + size)
        (.conversion (.cast opcode name e)) ↔
      Reads (readExpr ctx levels .conversion) front size e := by
  have hloaded : ∀ pieces, loadedSizeOf (.plain [Opcode.conversion] :: .plain [opcode] :: pieces) =
      2 + loadedSizeOf pieces := by
    intro pieces
    rw [loadedSizeOf_cons, loadedSizeOf_cons, ← Nat.add_assoc]
    rfl
  simp only [reads_iff_spells]
  constructor
  · rintro ⟨pieces, hs, hbytes, hsize⟩
    cases hs with
    | conversion _ hcast =>
      cases hcast with
      | @cast _ _ pieces _ _ h =>
        simp only [bytesOf_cons, Piece.bytes, List.singleton_append, List.cons.injEq, true_and]
          at hbytes
        rw [hloaded, UInt32.ofNat_add, UInt32.ofNat_add] at hsize
        exact ⟨pieces, h, hbytes, (UInt32.add_right_inj _).1 hsize⟩
  · rintro ⟨pieces, hs, rfl, hsize⟩
    refine ⟨.plain [Opcode.conversion] :: .plain [opcode] :: pieces, ?_, rfl, ?_⟩
    · have hconversion : Means ctx .main Opcode.conversion .conversion := by
        unfold Means
        cases ctx.format <;> rfl
      exact .conversion hconversion (.cast hop hs)
    · rw [hloaded, UInt32.ofNat_add, UInt32.ofNat_add, hsize]

/-- Behind a statement the others are read as if the counter had stood elsewhere from the start. -/
theorem readStatements_append {front : List UInt8} {before : Nat}
    (h : Reads (readExpr ctx nestingLimit .main) front before e) {size used : UInt32}
    (hsize : used < size) (bound : Nat) (input : List UInt8) :
    readStatements ctx size (bound + 1) ⟨front ++ input, used⟩ =
      ((e :: ·) <$> readStatements ctx size bound) ⟨input, used + .ofNat before⟩ :=
  (readStatements_of_lt hsize).trans (h.continues _ input used)

/-- A counter that does not begin again keeps sizes in order when something is counted in front. -/
theorem add_le_add_iff_of_lt {before size used : UInt32}
    (hsize : before.toNat + size.toNat < 0x100000000)
    (hused : before.toNat + used.toNat < 0x100000000) :
    before + size ≤ before + used ↔ size ≤ used := by
  rw [UInt32.le_iff_toNat_le, UInt32.toNat_add, UInt32.toNat_add, Nat.mod_eq_of_lt hsize,
    Nat.mod_eq_of_lt hused, UInt32.le_iff_toNat_le, Nat.add_le_add_iff_left]

/-- Statements lie at the same places in a script with something in front, as long as the counter
does not begin again. -/
theorem spellsStatements_add_iff {before size used : UInt32} {spelled : List (List Piece)}
    {statements : List Expr} (hsize : before.toNat + size.toNat < 0x100000000)
    (hused : before.toNat + used.toNat + loadedSizeOf spelled.flatten < 0x100000000) :
    SpellsStatements ctx (before + size) (before + used) spelled statements ↔
      SpellsStatements ctx size used spelled statements := by
  have hle : before + size ≤ before + used ↔ size ≤ used := add_le_add_iff_of_lt hsize (by omega)
  induction spelled generalizing used statements with
  | nil =>
    constructor
    · rintro ⟨h⟩
      exact .nil (hle.1 h)
    · rintro ⟨h⟩
      exact .nil (hle.2 h)
  | cons pieces spelled ih =>
    rw [List.flatten_cons, loadedSizeOf_append] at hused
    -- neither does it behind the first statement
    have hpieces : loadedSizeOf pieces < 0x100000000 := by omega
    have hmiddle : (used + .ofNat (loadedSizeOf pieces)).toNat =
        used.toNat + loadedSizeOf pieces := by
      rw [UInt32.toNat_add, UInt32.toNat_ofNat_of_lt' hpieces, Nat.mod_eq_of_lt (by omega)]
    have hrest := @ih (used + .ofNat (loadedSizeOf pieces))
    rw [hmiddle] at hrest
    have hiff := fun es => @hrest es (by omega) (add_le_add_iff_of_lt hsize (by omega))
    constructor
    · rintro (_ | ⟨hlt, he, h⟩)
      rw [UInt32.add_assoc] at h
      exact .cons (UInt32.not_le.1 fun hge => UInt32.not_le.2 hlt (hle.2 hge)) he ((hiff _).1 h)
    · rintro (_ | ⟨hlt, he, h⟩)
      refine .cons (UInt32.not_le.1 fun hge => UInt32.not_le.2 hlt (hle.1 hge)) he ?_
      rw [UInt32.add_assoc]
      exact (hiff _).2 h

/-- The statement at the front of a script has no part in reading those behind it, as long as the
counter does not begin again. -/
theorem decodeSized_cons_iff {front input rest : List UInt8} {before : Nat} {size used : UInt32}
    {statements : List Expr} (h : Reads (readExpr ctx nestingLimit .main) front before e)
    (hpos : 0 < before) (hsize : before + size.toNat < 0x100000000)
    (hinput : before + 4 * input.length < 0x100000000) :
    decodeSized ctx (.ofNat before + size) (front ++ input) =
        .ok ((e :: statements, .ofNat before + used), rest) ↔
      decodeSized ctx size input = .ok ((statements, used), rest) := by
  have hlt : before < 0x100000000 := by omega
  have hbefore : (UInt32.ofNat before).toNat = before := UInt32.toNat_ofNat_of_lt' hlt
  have hshift : ∀ spelled, input = bytesOf spelled.flatten ++ rest →
      (SpellsStatements ctx (.ofNat before + size) (0 + .ofNat before) spelled statements ↔
        SpellsStatements ctx size 0 spelled statements) := by
    intro spelled hspelled
    have hloaded := loadedSizeOf_le spelled.flatten
    rw [hspelled, List.length_append] at hinput
    rw [UInt32.add_comm 0]
    refine spellsStatements_add_iff ?_ ?_
    · rw [hbefore]
      exact hsize
    · rw [hbefore, UInt32.toNat_zero]
      omega
  simp only [decodeSized_eq_ok]
  constructor
  · rintro ⟨spelled, hstatements, hbytes, hused⟩
    cases hstatements with
    | @cons _ pieces _ more _ hsize he hrest =>
      -- the reader has only one way to take the first statement
      have hfirst := h input 0
      rw [hbytes, List.flatten_cons, bytesOf_append, List.append_assoc,
        Spells.reads ctx nestingLimit .main he] at hfirst
      obtain ⟨hmore, hloaded⟩ : bytesOf more.flatten ++ rest = input ∧
          UInt32.ofNat (loadedSizeOf pieces) = .ofNat before := by
        simpa using hfirst
      rw [List.flatten_cons, loadedSizeOf_append, UInt32.ofNat_add, hloaded] at hused
      rw [hloaded] at hrest
      exact ⟨more, (hshift more hmore.symm).1 hrest, hmore.symm, (UInt32.add_right_inj _).1 hused⟩
  · rintro ⟨spelled, hstatements, hbytes, hused⟩
    obtain ⟨pieces, hs, rfl, hloaded⟩ := reads_iff_spells.1 h
    have hfirst : 0 < UInt32.ofNat before + size := by
      rw [UInt32.lt_iff_toNat_lt, UInt32.toNat_add, hbefore, Nat.mod_eq_of_lt hsize]
      exact Nat.add_pos_left hpos _
    refine ⟨pieces :: spelled, .cons hfirst hs ?_, ?_, ?_⟩
    · rw [hloaded]
      exact (hshift spelled hbytes).2 hstatements
    · rw [hbytes, List.flatten_cons, bytesOf_append, List.append_assoc]
    · rw [List.flatten_cons, loadedSizeOf_append, UInt32.ofNat_add, hloaded, hused]

/-- The opcode of a conversion hands its table on. Behind a conversion and the opcode `opcode` of a
cast, exactly what the conversion table reads as an expression becomes the operand of the cast. What
the main table reads as an expression is spelled by some pieces, and whichever spell it, it becomes
the operand as well if none of their opcodes is given to a cast by the conversion table alone. The
statements behind the conversion are read with the main table, whatever the counter stands at; and
where it does not begin again, they are read as if the conversion were not there. -/
theorem conversion_reach (levels : Nat) {opcode : UInt8} {name : String}
    (hop : Means ctx .conversion opcode (.cast name)) :
    (∀ front size e, Reads (readExpr ctx (levels + 2) .main)
        (Opcode.conversion :: opcode :: front) (2 + size) (.conversion (.cast opcode name e)) ↔
      Reads (readExpr ctx levels .conversion) front size e) ∧
    (∀ front size e, Reads (readExpr ctx levels .main) front size e →
      (∃ pieces, Spells ctx levels .main pieces e ∧ bytesOf pieces = front) ∧
      ∀ pieces, Spells ctx levels .main pieces e → bytesOf pieces = front →
        OpcodesShared ctx pieces e → Reads (readExpr ctx (levels + 2) .main)
          (Opcode.conversion :: opcode :: front) (2 + size) (.conversion (.cast opcode name e))) ∧
    (levels + 2 = nestingLimit →
      ∀ front before e, Reads (readExpr ctx levels .conversion) front before e → ∀ size input,
        (∀ used bound, used < size →
          readStatements ctx size (bound + 1)
              ⟨Opcode.conversion :: opcode :: front ++ input, used⟩ =
            ((.conversion (.cast opcode name e) :: ·) <$> readStatements ctx size bound)
              ⟨input, used + .ofNat (2 + before)⟩) ∧
        (2 + before + size.toNat < 0x100000000 → 2 + before + 4 * input.length < 0x100000000 →
          ∀ statements used rest,
            decodeSized ctx (.ofNat (2 + before) + size)
                (Opcode.conversion :: opcode :: front ++ input) =
              .ok ((.conversion (.cast opcode name e) :: statements, .ofNat (2 + before) + used),
                rest) ↔
            decodeSized ctx size input = .ok ((statements, used), rest))) := by
  refine ⟨fun front size e => reads_conversion_cast_iff hop, ?_, ?_⟩
  · intro front size e h
    obtain ⟨pieces, hs, hbytes, -⟩ := reads_iff_spells.1 h
    refine ⟨⟨pieces, hs, hbytes⟩, fun pieces hs hbytes hshared => ?_⟩
    subst hbytes
    have hconverted := (spells_conversion_iff hs).2 hshared
    exact (reads_conversion_cast_iff hop).2
      (reads_iff_spells.2 ⟨pieces, hconverted, rfl, hs.ofNat_loadedSizeOf h⟩)
  · intro hlevels front before e h size input
    have hconversion := (reads_conversion_cast_iff hop).2 h
    rw [hlevels] at hconversion
    refine ⟨fun used bound hlt => readStatements_append hconversion hlt bound input, ?_⟩
    intro hsize hinput statements used rest
    exact decodeSized_cons_iff hconversion (by omega) hsize hinput

/-- A context of the extended revision. -/
def Context.extended : Context where
  tables := ⟨"P", [⟨"None", 0⟩], [], []⟩
  natives := .any
  format := .extended
  charset := .windows1252

/-- An operand that both tables read alike, with a statement behind the conversion. -/
theorem conversion_reach_intToFloat :
    Means .extended .conversion 0x5B (.cast "IntToINT64") ∧
      Reads (readExpr .extended nestingLimit .main) [0x39, 0x5B, 0x3F, 0x25] 4
        (.conversion (.cast 0x5B "IntToINT64" (.cast 0x3F "IntToFloat" (.atom .intZero)))) ∧
      decodeSized .extended 5 [0x39, 0x5B, 0x3F, 0x25, 0x26] = .ok (([.conversion
        (.cast 0x5B "IntToINT64" (.cast 0x3F "IntToFloat" (.atom .intZero))), .atom .intOne], 5),
        []) := by
  have hop : Means .extended .conversion 0x5B (.cast "IntToINT64") := by decide
  obtain ⟨-, hmain, hbehind⟩ := conversion_reach 126 hop
  have hoperand : ∀ table, Reads (readExpr .extended 126 table) [0x3F, 0x25] 2
      (.cast 0x3F "IntToFloat" (.atom .intZero)) := by
    intro table
    have hcast : Means .extended table 0x3F (.cast "IntToFloat") := by cases table <;> decide
    have hzero : Means .extended table Atom.intZero.opcode (.atom .intZero) := by
      cases table <;> decide
    exact reads_iff_spells.2
      ⟨[.plain [0x3F], .plain [Atom.intZero.opcode]], .cast hcast (.atom hzero), rfl, rfl⟩
  obtain ⟨⟨pieces, hs, hbytes⟩, hread⟩ := hmain _ _ _ (hoperand .main)
  have hshared : OpcodesShared .extended pieces (.cast 0x3F "IntToFloat" (.atom .intZero)) := by
    cases hs with
    | cast _ h =>
      cases h with
      | atom _ => exact ⟨trivial, by simp⟩
  obtain ⟨-, hdecode⟩ := hbehind rfl _ _ _ (hoperand .conversion) 1 [0x26]
  exact ⟨hop, hread pieces hs hbytes hshared, (hdecode (by decide) (by decide) _ 1 _).2 rfl⟩

/-- The operand of the cast is not read with the main table: there 0x41 removes array elements, but
behind the conversion it is a cast. -/
theorem conversion_reach_removal :
    Means .extended .conversion 0x5B (.cast "IntToINT64") ∧
      Reads (readExpr .extended 126 .main) [0x41, 0x25, 0x26, 0x25] 4
        (.remove (.atom .intZero) (.atom .intOne) (.atom .intZero)) ∧
      ¬ Reads (readExpr .extended nestingLimit .main) [0x39, 0x5B, 0x41, 0x25, 0x26, 0x25] 6
        (.conversion (.cast 0x5B "IntToINT64"
          (.remove (.atom .intZero) (.atom .intOne) (.atom .intZero)))) ∧
      decodeSized .extended 6 [0x39, 0x5B, 0x41, 0x25, 0x26, 0x25] = .ok (([.conversion
        (.cast 0x5B "IntToINT64" (.cast 0x41 "BoolToInt" (.atom .intZero))), .atom .intOne,
        .atom .intZero], 6), []) := by
  have hzero : Spells .extended 125 .main [.plain [Atom.intZero.opcode]] (.atom .intZero) :=
    .atom (by decide)
  have hone : Spells .extended 125 .main [.plain [Atom.intOne.opcode]] (.atom .intOne) :=
    .atom (by decide)
  have hremove : Spells .extended 126 .main _ _ := .remove (by decide) hzero hone hzero
  refine ⟨by decide, reads_iff_spells.2 ⟨_, hremove, rfl, rfl⟩, fun h => ?_, rfl⟩
  have hcode : readExpr .extended nestingLimit .main ⟨[0x39, 0x5B, 0x41, 0x25, 0x26, 0x25], 0⟩ =
      .ok (.conversion (.cast 0x5B "IntToINT64" (.cast 0x41 "BoolToInt" (.atom .intZero))),
        ⟨[0x26, 0x25], 4⟩) :=
    rfl
  cases hcode.symm.trans (h [] 0)

end UnrealPackage.Script
