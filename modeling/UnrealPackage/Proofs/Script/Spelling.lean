import Mathlib.Algebra.GroupWithZero.Nat
import UnrealPackage.Proofs.Script.WellFormed
/-!
# How expressions are spelled

`Spells ctx levels table pieces e`: the pieces stand for the expression `e`, nested at most `levels`
deep, when the opcodes of `table` are active. It is a grammar, with one rule for each kind of
expression, and says nothing about the order in which a reader looks at the bytes; that the reader
accepts exactly what is spelled here is proved apart.

A piece is a stretch of bytes that is read at once. Most of them have one form only. A compact
integer has several, and so has the index of a native function below 0x100, which may be told by one
byte or by two; these pieces carry the form that was used beside what it stands for. A statement
about what is lost when a script is written again is a statement about its pieces.
-/

namespace UnrealPackage.Script

/-! ## Pieces -/

/-- The beginning of a native call, which tells the index of the function: an opcode that is its own
index, or the high part of the index in an opcode and the low one behind it. -/
inductive NativeForm
  | short (opcode : UInt8) (h : Opcode.firstNative ≤ opcode.toNat)
  | long (high low : UInt8) (hge : Opcode.extendedNative ≤ high)
    (hlt : high.toNat < Opcode.firstNative)

namespace NativeForm

/-- The first byte. -/
def opcode : NativeForm → UInt8
  | short opcode _ => opcode
  | long high _ _ _ => high

/-- The bytes behind the first one. -/
def tail : NativeForm → List UInt8
  | short _ _ => []
  | long _ low _ _ => [low]

/-- The index of the function. -/
def index : NativeForm → Nat
  | short opcode _ => opcode.toNat
  | long high low _ _ => (high.toNat - Opcode.extendedNative.toNat) * 256 + low.toNat

/-- Whether two bytes tell an index for which one is enough. -/
def IsLengthy : NativeForm → Prop
  | short _ _ => False
  | form => Opcode.firstNative ≤ form.index ∧ form.index ≤ 0xFF

instance : (form : NativeForm) → Decidable form.IsLengthy
  | .short _ _ => inferInstanceAs (Decidable False)
  | .long _ _ _ _ => inferInstanceAs (Decidable (_ ∧ _))

end NativeForm

/-- A stretch of script bytes that is read at once. -/
inductive Piece
  /-- Bytes that have no other form. -/
  | plain (bytes : List UInt8)
  /-- A compact integer in one of its forms. -/
  | compact (value : Int32) (form : List UInt8) (h : Decode.Reads Decode.compact form value)
  /-- The beginning of a native call. -/
  | native (form : NativeForm)

/-- The bytes of a piece. -/
def Piece.bytes : Piece → List UInt8
  | plain bytes => bytes
  | compact _ form _ => form
  | native form => form.opcode :: form.tail

/-- What a piece takes in memory for the reader. -/
def Piece.loadedSize : Piece → Nat
  | compact _ _ _ => 4
  | piece => piece.bytes.length

/-- The bytes of pieces in a row. -/
def bytesOf (pieces : List Piece) : List UInt8 :=
  pieces.flatMap Piece.bytes

/-- What pieces in a row take in memory for the reader. -/
def loadedSizeOf (pieces : List Piece) : Nat :=
  (pieces.map Piece.loadedSize).sum

section

variable (piece : Piece) (pieces more : List Piece)

@[simp] theorem bytesOf_nil : bytesOf [] = [] := rfl

@[simp] theorem bytesOf_cons : bytesOf (piece :: pieces) = piece.bytes ++ bytesOf pieces := rfl

@[simp] theorem bytesOf_append : bytesOf (pieces ++ more) = bytesOf pieces ++ bytesOf more :=
  List.flatMap_append

@[simp] theorem loadedSizeOf_nil : loadedSizeOf [] = 0 := rfl

@[simp] theorem loadedSizeOf_cons :
    loadedSizeOf (piece :: pieces) = piece.loadedSize + loadedSizeOf pieces := by
  rw [loadedSizeOf, List.map_cons, List.sum_cons, loadedSizeOf]

@[simp] theorem loadedSizeOf_append :
    loadedSizeOf (pieces ++ more) = loadedSizeOf pieces + loadedSizeOf more := by
  rw [loadedSizeOf, List.map_append, List.sum_append, loadedSizeOf, loadedSizeOf]

/-- A piece takes four bytes in memory for each of its own, or less. -/
theorem Piece.loadedSize_le : piece.loadedSize ≤ 4 * piece.bytes.length := by
  cases piece with
  | plain bytes => exact Nat.le_mul_of_pos_left _ (by decide)
  | native form => exact Nat.le_mul_of_pos_left _ (by decide)
  | compact v form h =>
    have hlength := h.length_compact_le
    have hpos := List.length_pos_iff.2 (Encode.compact_ne_nil v)
    show 4 ≤ 4 * form.length
    omega

/-- Pieces take at most four bytes of memory for each of theirs. -/
theorem loadedSizeOf_le : loadedSizeOf pieces ≤ 4 * (bytesOf pieces).length := by
  induction pieces with
  | nil => exact Nat.zero_le _
  | cons piece pieces ih =>
    have hpiece := piece.loadedSize_le
    rw [loadedSizeOf_cons, bytesOf_cons, List.length_append]
    omega

end

/-! ## The grammar -/

/-- Which pieces stand for which expressions. -/
abbrev Spelling := List Piece → Expr → Prop

/-- Constants behind their opcode. -/
inductive SpellsConst (cs : Charset) : List Piece → Const → Prop
  | int (v : Int32) : SpellsConst cs [.plain (Encode.i32 v)] (.int v)
  | float (v : Single) : SpellsConst cs [.plain (Encode.single v)] (.float v)
  | text {stored : List UInt8} (hzero : 0 ∉ stored) :
    SpellsConst cs [.plain (stored ++ [0])] (.text (cs.decodeLossy stored))
  | wideText {units : List UInt16} {s : String} (hzero : 0 ∉ units)
    (h : textOf? (Utf16.decode units) = some s) :
    SpellsConst cs [.plain ((units ++ [0]).flatMap Encode.u16)] (.wideText s)
  | name {n : NameIndex} {form : List UInt8} (h : Decode.Reads Decode.compact form n) :
    SpellsConst cs [.compact n form h] (.name n)
  | byte (v : UInt8) : SpellsConst cs [.plain [v]] (.byte v)
  | shortInt (v : UInt8) : SpellsConst cs [.plain [v]] (.shortInt v)
  | rotator (pitch yaw roll : Int32) :
    SpellsConst cs [.plain (Encode.i32 pitch), .plain (Encode.i32 yaw), .plain (Encode.i32 roll)]
      (.rotator pitch yaw roll)
  | vector (x y z : Single) :
    SpellsConst cs [.plain (Encode.single x), .plain (Encode.single y), .plain (Encode.single z)]
      (.vector x y z)

/-- Labels, of which the last one and no other has the name `last`. -/
inductive SpellsLabels (last : NameIndex) : List Piece → List Label → Prop
  | last {l : Label} {form : List UInt8} (h : Decode.Reads Decode.compact form l.name)
    (hname : l.name = last) :
    SpellsLabels last [.compact l.name form h, .plain (Encode.i32 l.offset)] [l]
  | cons {l : Label} {form : List UInt8} {more : List Piece} {labels : List Label}
    (h : Decode.Reads Decode.compact form l.name) (hname : l.name ≠ last)
    (hrest : SpellsLabels last more labels) :
    SpellsLabels last (.compact l.name form h :: .plain (Encode.i32 l.offset) :: more) (l :: labels)

/-- Operands in a row with the end of the parameters behind them. -/
inductive SpellsParams (next : Spelling) : List Piece → List Expr → Prop
  | nil {pieces : List Piece} (h : next pieces (.atom .endOfParams)) : SpellsParams next pieces []
  | cons {front more : List Piece} {e : Expr} {es : List Expr} (h : next front e)
    (hrest : SpellsParams next more es) : SpellsParams next (front ++ more) (e :: es)

/-- An expression whose opcode is looked up in `table`. Its operands are spelled by `next`, the
operand of a conversion by `converted`. -/
inductive Phrase (ctx : Context) (table : OpcodeTable) (next converted : Spelling) : Spelling
  | atom {a : Atom} (hop : Means ctx table a.opcode (.atom a)) :
    Phrase ctx table next converted [.plain [a.opcode]] (.atom a)
  | reference {use : RefUse} {object : ObjectRef} {form : List UInt8}
    (hop : Means ctx table use.opcode (.reference use))
    (h : Decode.Reads Decode.compact form object.value) :
    Phrase ctx table next converted [.plain [use.opcode], .compact object.value form h]
      (.reference use object)
  | const {c : Const} {pieces : List Piece}
    (hop : Means ctx table c.kind.opcode (.const c.kind)) (h : SpellsConst ctx.charset pieces c) :
    Phrase ctx table next converted (.plain [c.kind.opcode] :: pieces) (.const c)
  | wrap {w : Wrapper} {pieces : List Piece} {operand : Expr}
    (hop : Means ctx table w.opcode (.wrap w)) (h : next pieces operand) :
    Phrase ctx table next converted (.plain [w.opcode] :: pieces) (.wrap w operand)
  | pair {p : Pairing} {pieces₁ pieces₂ : List Piece} {first second : Expr}
    (hop : Means ctx table p.opcode (.pair p)) (h₁ : next pieces₁ first)
    (h₂ : next pieces₂ second) :
    Phrase ctx table next converted (.plain [p.opcode] :: (pieces₁ ++ pieces₂))
      (.pair p first second)
  | context {use : ContextUse} {skip : UInt16} {size : UInt8} {pieces₁ pieces₂ : List Piece}
    {object member : Expr} (hop : Means ctx table use.opcode (.context use))
    (h₁ : next pieces₁ object) (h₂ : next pieces₂ member) :
    Phrase ctx table next converted
      (.plain [use.opcode] ::
        (pieces₁ ++ .plain (Encode.u16 skip) :: .plain [size] :: pieces₂))
      (.context use object skip size member)
  | typed {use : TypedUse} {type : ObjectRef} {form : List UInt8} {pieces : List Piece}
    {operand : Expr} (hop : Means ctx table use.opcode (.typed use))
    (htype : Decode.Reads Decode.compact form type.value) (h : next pieces operand) :
    Phrase ctx table next converted
      (.plain [use.opcode] :: .compact type.value form htype :: pieces) (.typed use type operand)
  | compare {c : StructComparison} {struct : ObjectRef} {form : List UInt8}
    {pieces₁ pieces₂ : List Piece} {lhs rhs : Expr} (hop : Means ctx table c.opcode (.compare c))
    (hstruct : Decode.Reads Decode.compact form struct.value) (h₁ : next pieces₁ lhs)
    (h₂ : next pieces₂ rhs) :
    Phrase ctx table next converted
      (.plain [c.opcode] :: .compact struct.value form hstruct :: (pieces₁ ++ pieces₂))
      (.compare c struct lhs rhs)
  | switch {size : UInt8} {pieces : List Piece} {value : Expr}
    (hop : Means ctx table Opcode.switch .switch) (h : next pieces value) :
    Phrase ctx table next converted (.plain [Opcode.switch] :: .plain [size] :: pieces)
      (.switch size value)
  | jump {offset : UInt16} (hop : Means ctx table Opcode.jump .jump) :
    Phrase ctx table next converted [.plain [Opcode.jump], .plain (Encode.u16 offset)]
      (.jump offset)
  | jumpIfNot {offset : UInt16} {pieces : List Piece} {condition : Expr}
    (hop : Means ctx table Opcode.jumpIfNot .jumpIfNot) (h : next pieces condition) :
    Phrase ctx table next converted
      (.plain [Opcode.jumpIfNot] :: .plain (Encode.u16 offset) :: pieces)
      (.jumpIfNot offset condition)
  | assert {line : UInt16} {debug : UInt8} {pieces : List Piece} {condition : Expr}
    (hop : Means ctx table Opcode.assert .assert) (h : next pieces condition) :
    Phrase ctx table next converted
      (.plain [Opcode.assert] :: .plain (Encode.u16 line) :: .plain [debug] :: pieces)
      (.assert line debug condition)
  | caseOf {offset : UInt16} {pieces : List Piece} {value : Expr}
    (hop : Means ctx table Opcode.case .case) (hoffset : offset ≠ defaultCaseOffset)
    (h : next pieces value) :
    Phrase ctx table next converted (.plain [Opcode.case] :: .plain (Encode.u16 offset) :: pieces)
      (.caseOf offset value)
  | caseElse (hop : Means ctx table Opcode.case .case) :
    Phrase ctx table next converted
      [.plain [Opcode.case], .plain (Encode.u16 defaultCaseOffset)] (.caseElse defaultCaseOffset)
  | labelTable {i : Nat} {pieces : List Piece} {labels : List Label}
    (hop : Means ctx table Opcode.labelTable .labelTable)
    (hnone : ctx.tables.nameIndex? noneName = some i)
    (h : SpellsLabels (Int32.ofNat i) pieces labels) :
    Phrase ctx table next converted (.plain [Opcode.labelTable] :: pieces) (.labelTable labels)
  | new {pieces₁ pieces₂ pieces₃ pieces₄ : List Piece} {outer name flags type : Expr}
    (hop : Means ctx table Opcode.new .new) (h₁ : next pieces₁ outer) (h₂ : next pieces₂ name)
    (h₃ : next pieces₃ flags) (h₄ : next pieces₄ type) :
    Phrase ctx table next converted
      (.plain [Opcode.new] :: (pieces₁ ++ (pieces₂ ++ (pieces₃ ++ pieces₄))))
      (.new outer name flags type)
  | skip {size : UInt16} {pieces : List Piece} {operand : Expr}
    (hop : Means ctx table Opcode.skip .skip) (h : next pieces operand) :
    Phrase ctx table next converted (.plain [Opcode.skip] :: .plain (Encode.u16 size) :: pieces)
      (.skip size operand)
  | virtualCall {name : NameIndex} {form : List UInt8} {pieces : List Piece} {params : List Expr}
    (hop : Means ctx table Opcode.virtualFunction .virtualFunction)
    (hname : Decode.Reads Decode.compact form name) (h : SpellsParams next pieces params)
    (htakes : CallShape.call.Takes params) :
    Phrase ctx table next converted
      (.plain [Opcode.virtualFunction] :: .compact name form hname :: pieces)
      (.call (.virtualFunction name) params)
  | globalCall {name : NameIndex} {form : List UInt8} {pieces : List Piece} {params : List Expr}
    (hop : Means ctx table Opcode.globalFunction .globalFunction)
    (hname : Decode.Reads Decode.compact form name) (h : SpellsParams next pieces params)
    (htakes : CallShape.call.Takes params) :
    Phrase ctx table next converted
      (.plain [Opcode.globalFunction] :: .compact name form hname :: pieces)
      (.call (.globalFunction name) params)
  | finalCall {function : ObjectRef} {form : List UInt8} {pieces : List Piece}
    {params : List Expr} (hop : Means ctx table Opcode.finalFunction .finalFunction)
    (hfunction : Decode.Reads Decode.compact form function.value)
    (h : SpellsParams next pieces params) (htakes : CallShape.call.Takes params) :
    Phrase ctx table next converted
      (.plain [Opcode.finalFunction] :: .compact function.value form hfunction :: pieces)
      (.call (.finalFunction function) params)
  /-- A native call begins with a byte that is no opcode of the table, and has as many operands as
  the layout of the function says. -/
  | nativeCall {form : NativeForm} {f : NativeFunction} {pieces : List Piece} {params : List Expr}
    (hop : lookupOp? ctx.format table form.opcode = none)
    (hfirst : Opcode.firstNative ≤ form.index) (hf : ctx.natives form.index = .ok f)
    (h : SpellsParams next pieces params) (htakes : f.shape.Takes params) :
    Phrase ctx table next converted (.native form :: pieces) (.call (.native f) params)
  | iterator {stop : UInt16} {pieces : List Piece} {operand : Expr}
    (hop : Means ctx table Opcode.iterator .iterator) (h : next pieces operand) :
    Phrase ctx table next converted
      (.plain [Opcode.iterator] :: (pieces ++ [.plain (Encode.u16 stop)])) (.iterator operand stop)
  | conversion {pieces : List Piece} {operand : Expr}
    (hop : Means ctx table Opcode.conversion .conversion) (h : converted pieces operand) :
    Phrase ctx table next converted (.plain [Opcode.conversion] :: pieces) (.conversion operand)
  | cast {opcode : UInt8} {name : String} {pieces : List Piece} {operand : Expr}
    (hop : Means ctx table opcode (.cast name)) (h : next pieces operand) :
    Phrase ctx table next converted (.plain [opcode] :: pieces) (.cast opcode name operand)
  | remove {pieces₁ pieces₂ pieces₃ : List Piece} {array index count : Expr}
    (hop : Means ctx table Opcode.remove .remove) (h₁ : next pieces₁ array)
    (h₂ : next pieces₂ index) (h₃ : next pieces₃ count) :
    Phrase ctx table next converted
      (.plain [Opcode.remove] :: (pieces₁ ++ (pieces₂ ++ pieces₃))) (.remove array index count)

/-- The expressions that are nested at most `levels` deep. All operands keep the table, but for the
operand of a conversion. -/
def Spells (ctx : Context) : Nat → OpcodeTable → Spelling
  | 0, _ => fun _ _ => False
  | levels + 1, table => Phrase ctx table (Spells ctx levels table) (Spells ctx levels .conversion)

/-- An expression takes something in memory. -/
theorem Spells.loadedSizeOf_pos {ctx : Context} {levels : Nat} {table : OpcodeTable}
    {pieces : List Piece} {e : Expr} (h : Spells ctx levels table pieces e) :
    0 < loadedSizeOf pieces := by
  cases levels with
  | zero => cases h
  | succ levels =>
    cases h <;>
    · simp only [loadedSizeOf_cons, Piece.loadedSize, Piece.bytes, List.length_cons]
      omega

/-- Statements of a script of `size` bytes in memory, where the counter stands at `used` in front of
them: there is one more as long as it has not reached the size. Each statement has its own list of
pieces. -/
inductive SpellsStatements (ctx : Context) (size : UInt32) :
    UInt32 → List (List Piece) → List Expr → Prop
  | nil {used : UInt32} (h : size ≤ used) : SpellsStatements ctx size used [] []
  | cons {used : UInt32} {pieces : List Piece} {e : Expr} {more : List (List Piece)}
    {es : List Expr} (h : used < size) (he : Spells ctx nestingLimit .main pieces e)
    (hrest : SpellsStatements ctx size (used + .ofNat (loadedSizeOf pieces)) more es) :
    SpellsStatements ctx size used (pieces :: more) (e :: es)

end UnrealPackage.Script
