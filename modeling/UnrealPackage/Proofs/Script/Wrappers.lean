import UnrealPackage.Proofs.Binary.Reads
import UnrealPackage.Proofs.Script.Precedence
/-!
# Expressions that are written as their operand

A skip, a conversion and two other expressions have no text of their own. Whether an operand is put
in brackets is asked of the operand, though, and only a conversion passes the question on: around
what the other three stand for there are no brackets. `lines_wrap` says that this is the only
difference that they make, at any place of a script.

A place is a row of `Frame`s, each an expression with one operand left open. Everything about places
rests on what one frame does: its text depends on the operand's text and on whether the operand is
bracketed (`Frame.render_fill_congr`), and stands around that text (`Frame.surrounds`).
-/

namespace UnrealPackage.Script

variable {t : Tables} {x y : Expr} {s : String}

/-- An expression around another that is written as that one. -/
inductive Silent
  | skip (size : UInt16)
  | eatString
  | boolVariable
  | conversion
deriving DecidableEq, Repr

namespace Silent

/-- The expression around its operand. -/
def wrap : Silent → Expr → Expr
  | skip size, x => .skip size x
  | eatString, x => .wrap .eatString x
  | boolVariable, x => .wrap .boolVariable x
  | conversion, x => .conversion x

@[simp] theorem isNothing_wrap (w : Silent) (x : Expr) : (w.wrap x).isNothing = false := by
  cases w <;> rfl

/-- A wrapper that is not shown leaves the text of what it wraps. -/
@[simp] theorem render_wrap (w : Silent) (x : Expr) : (w.wrap x).render t = x.render t := by
  cases w with
  | skip => rw [wrap, Expr.render]
  | conversion => rw [wrap, Expr.render]
  | eatString =>
    rw [wrap, Expr.render]
    cases x.render t <;> rfl
  | boolVariable =>
    rw [wrap, Expr.render]
    cases x.render t <;> rfl

/-- Only a conversion is taken for the operation inside it. -/
theorem binaryPrecedence?_wrap (w : Silent) (x : Expr) :
    (w.wrap x).binaryPrecedence? = if w = conversion then x.binaryPrecedence? else none := by
  cases w <;> rfl

end Silent

/-! ## Places -/

/-- How many operands an operator of the shape has. -/
def CallShape.operands? : CallShape → Option Nat
  | prefixOp => some 1
  | postfixOp => some 1
  | binaryOp => some 2
  | call => none

/-- Whether an operation of the precedence is put in brackets as an operand of the function that has
the others in front of it and behind it. -/
def NativeFunction.bracketsAmong (g : NativeFunction) (front back : List Expr) : UInt8 → Bool :=
  match g.shape, front, back with
  | .prefixOp, [], [] => fun _ => true
  | .postfixOp, [], [] => fun _ => true
  | .binaryOp, [], [_] => fun q => g.precedence < q
  | .binaryOp, [_], [] => fun q => g.precedence ≤ q
  | _, _, _ => fun _ => false

/-- An expression with one operand left open. -/
inductive Frame
  | wrap (w : Wrapper)
  | pairFirst (p : Pairing) (second : Expr)
  | pairSecond (p : Pairing) (first : Expr)
  | contextObject (use : ContextUse) (length : UInt16) (size : UInt8) (member : Expr)
  | contextMember (use : ContextUse) (object : Expr) (length : UInt16) (size : UInt8)
  | typed (use : TypedUse) (type : ObjectRef)
  | compareLeft (c : StructComparison) (struct : ObjectRef) (rhs : Expr)
  | compareRight (c : StructComparison) (struct : ObjectRef) (lhs : Expr)
  | switch (size : UInt8)
  | jumpIfNot (offset : UInt16)
  | assert (line : UInt16) (debug : UInt8)
  | caseOf (offset : UInt16)
  | newOuter (name flags type : Expr)
  | newName (outer flags type : Expr)
  | newFlags (outer name type : Expr)
  | newType (outer name flags : Expr)
  | skip (size : UInt16)
  | param (callee : Callee) (front back : List Expr)
  | iterator (stop : UInt16)
  | conversion
  | cast (opcode : UInt8) (name : String)
  | removeArray (index count : Expr)
  | removeIndex (array count : Expr)
  | removeCount (array index : Expr)

namespace Frame

/-- The expression with its operand. -/
def fill : Frame → Expr → Expr
  | wrap w, x => .wrap w x
  | pairFirst p second, x => .pair p x second
  | pairSecond p first, x => .pair p first x
  | contextObject use length size member, x => .context use x length size member
  | contextMember use object length size, x => .context use object length size x
  | typed use type, x => .typed use type x
  | compareLeft c struct rhs, x => .compare c struct x rhs
  | compareRight c struct lhs, x => .compare c struct lhs x
  | switch size, x => .switch size x
  | jumpIfNot offset, x => .jumpIfNot offset x
  | assert line debug, x => .assert line debug x
  | caseOf offset, x => .caseOf offset x
  | newOuter name flags type, x => .new x name flags type
  | newName outer flags type, x => .new outer x flags type
  | newFlags outer name type, x => .new outer name x type
  | newType outer name flags, x => .new outer name flags x
  | skip size, x => .skip size x
  | param callee front back, x => .call callee (front ++ x :: back)
  | iterator stop, x => .iterator x stop
  | conversion, x => .conversion x
  | cast opcode name, x => .cast opcode name x
  | removeArray index count, x => .remove x index count
  | removeIndex array count, x => .remove array x count
  | removeCount array index, x => .remove array index x

/-- Whether an operation of the precedence is put in brackets as the operand. -/
def brackets : Frame → UInt8 → Bool
  | param (.native g) front back => g.bracketsAmong front back
  | _ => fun _ => false

/-- Whether the expression is put in brackets as the operand. -/
def bracketsOperand (f : Frame) (x : Expr) : Bool :=
  x.binaryPrecedence?.any f.brackets

variable {f : Frame}

@[simp] theorem isNothing_fill (f : Frame) (x : Expr) : (f.fill x).isNothing = false := by
  cases f <;> rfl

/-- How tightly a filled frame binds depends at most on how tightly the operand does. -/
theorem binaryPrecedence?_fill_congr (h : x.binaryPrecedence? = y.binaryPrecedence?) :
    (f.fill x).binaryPrecedence? = (f.fill y).binaryPrecedence? := by
  cases f with
  | conversion => exact h
  | param callee front back => cases callee <;> rfl
  | _ => rfl

end Frame

/-- The expression in a place, which is given from the inside. -/
def plug : List Frame → Expr → Expr
  | [], x => x
  | f :: frames, x => plug frames (f.fill x)

/-- Whether the expression is put in brackets in the place. -/
def bracketsIn : List Frame → Expr → Bool
  | [], _ => false
  | .conversion :: frames, x => bracketsIn frames x
  | f :: _, x => f.bracketsOperand x

/-! ## Rows of arguments -/

variable {front back : List Expr}

/-- Texts of a row are those of its front and of the rest. -/
theorem renderAll_append (front back : List Expr) :
    Expr.renderAll t (front ++ back) = (do
      let texts ← Expr.renderAll t front
      let texts' ← Expr.renderAll t back
      pure (texts ++ texts')) := by
  induction front with
  | nil => rw [List.nil_append, Expr.renderAll]; simp
  | cons e es ih => simp [Expr.renderAll, ih]

/-- Each parameter has a text. -/
theorem length_of_renderAll {params : List Expr} {texts : List String}
    (h : Expr.renderAll t params = .ok texts) : texts.length = params.length := by
  induction params generalizing texts with
  | nil =>
    obtain rfl := Except.ok.inj h
    rfl
  | cons e es ih =>
    obtain ⟨first, -, h⟩ := except_bind_eq_ok.1 h
    obtain ⟨rest, hrest, h⟩ := except_bind_eq_ok.1 h
    obtain rfl := Except.ok.inj h
    rw [List.length_cons, List.length_cons, ih hrest]

/-- With one parameter that is written there are as many as in front of it, that one and those
behind. -/
theorem writtenCount_append (hx : x.isNothing = false) (front back : List Expr) :
    writtenCount (front ++ x :: back) = front.length + (writtenCount back + 1) := by
  rw [writtenCount, writtenCount, List.reverse_append, List.reverse_cons, List.append_assoc,
    List.dropWhile_append]
  split
  · next h =>
    rw [List.isEmpty_iff.1 h, List.singleton_append,
      List.dropWhile_cons_of_neg (by rw [hx]; exact nofun)]
    simp
  · simp only [List.length_append, List.length_reverse, List.length_singleton]
    omega

/-- A text in a row stands between what the others make of it. -/
theorem intercalate_append_cons (sep : String) (front back : List String) :
    ∃ before behind, ∀ s, sep.intercalate (front ++ s :: back) = before ++ s ++ behind := by
  have hback : ∃ behind, ∀ s, sep.intercalate (s :: back) = s ++ behind := by
    cases back with
    | nil => exact ⟨"", fun s => by rw [String.intercalate_singleton, String.append_empty]⟩
    | cons a back =>
      exact ⟨sep ++ sep.intercalate (a :: back), fun s => by
        rw [String.intercalate_cons_cons, String.append_assoc]⟩
  obtain ⟨behind, hback⟩ := hback
  cases front with
  | nil => exact ⟨"", behind, fun s => by rw [List.nil_append, hback, String.empty_append]⟩
  | cons a front =>
    refine ⟨sep.intercalate (a :: front) ++ sep, behind, fun s => ?_⟩
    rw [String.intercalate_append_of_ne_nil (List.cons_ne_nil _ _) (List.cons_ne_nil _ _), hback]
    simp only [String.append_assoc]

/-- An argument that was not left out stands in the text between what the others make of it. -/
theorem argumentText_append {ftexts : List String} (hlength : ftexts.length = front.length)
    (back : List Expr) (btexts : List String) : ∃ before behind, ∀ x s, x.isNothing = false →
      argumentText (front ++ x :: back) (ftexts ++ s :: btexts) = before ++ s ++ behind := by
  obtain ⟨before, behind, h⟩ :=
    intercalate_append_cons ", " ftexts (btexts.take (writtenCount back))
  refine ⟨before, behind, fun x s hx => ?_⟩
  rw [argumentText, writtenCount_append hx, ← hlength, List.take_length_add_append,
    List.take_succ_cons, h]

/-! ## The text of a frame -/

namespace Frame

variable {f : Frame}

theorem bracketsOperand_eq_false (h : f.brackets = fun _ => false) (x : Expr) :
    f.bracketsOperand x = false := by
  rw [bracketsOperand, h]
  cases x.binaryPrecedence? <;> rfl

/-- A call that has not as many arguments as its operator has operands is written as a call. -/
theorem nativeText_eq_call {g : NativeFunction} {params : List Expr}
    (h : g.shape.operands? ≠ some params.length) (texts : List String) :
    nativeText g params texts = g.name ++ "(" ++ argumentText params texts ++ ")" := by
  unfold nativeText
  split
  · next hshape => exact absurd (by rw [hshape]; rfl) h
  · next hshape => exact absurd (by rw [hshape]; rfl) h
  · next hshape => exact absurd (by rw [hshape]; rfl) h
  · rfl

/-- A function that takes another number of operands puts none of them in brackets. -/
theorem bracketsAmong_eq_false {g : NativeFunction}
    (h : g.shape.operands? ≠ some (front.length + (back.length + 1))) :
    g.bracketsAmong front back = fun _ => false := by
  unfold NativeFunction.bracketsAmong
  split
  · next hshape => exact absurd (by rw [hshape]; rfl) h
  · next hshape => exact absurd (by rw [hshape]; rfl) h
  · next hshape => exact absurd (by rw [hshape]; rfl) h
  · next hshape => exact absurd (by rw [hshape]; rfl) h
  · rfl

/-- An operand of a native call stands in the text between what the call and the other operands make
of it. -/
theorem nativeText_append (g : NativeFunction) {ftexts btexts : List String}
    (hf : ftexts.length = front.length) (hb : btexts.length = back.length) :
    ∃ before behind, ∀ x s, x.isNothing = false →
      nativeText g (front ++ x :: back) (ftexts ++ s :: btexts) =
        before ++ bracketedIf (x.binaryPrecedence?.any (g.bracketsAmong front back)) s ++
          behind := by
  by_cases hoperands : g.shape.operands? = some (front.length + (back.length + 1))
  · have hnil : ∀ {α : Type} {l : List α}, l.length = 0 → l = [] := List.eq_nil_of_length_eq_zero
    have hsome : ∀ q : Option UInt8, q.isSome = q.any fun _ => true := by rintro (_ | _) <;> rfl
    cases hshape : g.shape with
    | call => rw [hshape] at hoperands; cases hoperands
    | prefixOp =>
      rw [hshape, CallShape.operands?, Option.some_inj] at hoperands
      obtain ⟨rfl, rfl⟩ : front = [] ∧ back = [] := ⟨hnil (by omega), hnil (by omega)⟩
      obtain ⟨rfl, rfl⟩ : ftexts = [] ∧ btexts = [] := ⟨hnil hf, hnil hb⟩
      refine ⟨g.name ++ (if isWord g.name then " " else ""), "", fun x s _ => ?_⟩
      simp only [nativeText, NativeFunction.bracketsAmong, hshape, List.nil_append, unaryOperand,
        String.append_empty, hsome]
    | postfixOp =>
      rw [hshape, CallShape.operands?, Option.some_inj] at hoperands
      obtain ⟨rfl, rfl⟩ : front = [] ∧ back = [] := ⟨hnil (by omega), hnil (by omega)⟩
      obtain ⟨rfl, rfl⟩ : ftexts = [] ∧ btexts = [] := ⟨hnil hf, hnil hb⟩
      refine ⟨"", (if isWord g.name then " " else "") ++ g.name, fun x s _ => ?_⟩
      simp only [nativeText, NativeFunction.bracketsAmong, hshape, List.nil_append, unaryOperand,
        String.empty_append, String.append_assoc, hsome]
    | binaryOp =>
      rw [hshape, CallShape.operands?, Option.some_inj] at hoperands
      obtain ⟨hfront, hback⟩ | ⟨hfront, hback⟩ : (front.length = 0 ∧ back.length = 1) ∨
          (front.length = 1 ∧ back.length = 0) := by omega
      · obtain ⟨rfl, rfl⟩ : front = [] ∧ ftexts = [] := ⟨hnil hfront, hnil (hf.trans hfront)⟩
        obtain ⟨b, rfl⟩ := List.length_eq_one_iff.1 hback
        obtain ⟨btext, rfl⟩ := List.length_eq_one_iff.1 hb
        refine ⟨"", " " ++ g.name ++ " " ++ rightOperand g.precedence b btext, fun x s _ => ?_⟩
        simp only [nativeText, NativeFunction.bracketsAmong, hshape, List.nil_append, leftOperand,
          String.empty_append, String.append_assoc]
      · obtain ⟨rfl, rfl⟩ : back = [] ∧ btexts = [] := ⟨hnil hback, hnil (hb.trans hback)⟩
        obtain ⟨a, rfl⟩ := List.length_eq_one_iff.1 hfront
        obtain ⟨atext, rfl⟩ := List.length_eq_one_iff.1 hf
        refine ⟨leftOperand g.precedence a atext ++ " " ++ g.name ++ " ", "", fun x s _ => ?_⟩
        simp only [nativeText, NativeFunction.bracketsAmong, hshape, List.singleton_append,
          rightOperand, String.append_empty]
  · obtain ⟨before, behind, hargs⟩ := argumentText_append hf back btexts
    have hnone : ∀ q : Option UInt8, (q.any fun _ => false) = false := by rintro (_ | _) <;> rfl
    refine ⟨g.name ++ "(" ++ before, behind ++ ")", fun x s hx => ?_⟩
    rw [nativeText_eq_call (by rwa [List.length_append, List.length_cons]), hargs x s hx,
      bracketsAmong_eq_false hoperands, hnone]
    simp only [String.append_assoc]
    rfl

/-- The text of a filled frame depends on the operand's text and on whether that is in brackets. -/
theorem render_fill_congr (f : Frame) (htext : x.render t = y.render t) (hx : x.isNothing = false)
    (hy : y.isNothing = false) (hbrackets : f.bracketsOperand x = f.bracketsOperand y) :
    (f.fill x).render t = (f.fill y).render t := by
  have hargs : ∀ front back texts,
      argumentText (front ++ x :: back) texts = argumentText (front ++ y :: back) texts := by
    intro front back texts
    rw [argumentText, argumentText, writtenCount_append hx, writtenCount_append hy]
  cases f with
  | wrap w => simp only [fill, Expr.render, htext, hx, hy]
  | pairFirst p second => cases p <;> simp only [fill, Expr.render, htext]
  | pairSecond p first => cases p <;> simp only [fill, Expr.render, htext]
  | typed use type => cases use <;> simp only [fill, Expr.render, htext]
  | newOuter name flags type =>
    have hnew : argumentText [x, name, flags] = argumentText [y, name, flags] :=
      funext (hargs [] [name, flags])
    simp only [fill, Expr.render, htext, hnew]
  | newName outer flags type =>
    have hnew : argumentText [outer, x, flags] = argumentText [outer, y, flags] :=
      funext (hargs [outer] [flags])
    simp only [fill, Expr.render, htext, hnew]
  | newFlags outer name type =>
    have hnew : argumentText [outer, name, x] = argumentText [outer, name, y] :=
      funext (hargs [outer, name] [])
    simp only [fill, Expr.render, htext, hnew]
  | param callee front back =>
    simp only [fill, Expr.render, renderAll_append, Expr.renderAll, htext, hargs]
    cases hf : Expr.renderAll t front with
    | error => rfl
    | ok ftexts =>
      cases y.render t with
      | error => rfl
      | ok s =>
        cases hb : Expr.renderAll t back with
        | error => rfl
        | ok btexts =>
          cases callee with
          | native g =>
            obtain ⟨before, behind, h⟩ :=
              nativeText_append g (length_of_renderAll hf) (length_of_renderAll hb)
            have hnative : nativeText g (front ++ x :: back) (ftexts ++ s :: btexts) =
                nativeText g (front ++ y :: back) (ftexts ++ s :: btexts) := by
              rw [h x s hx, h y s hy]
              exact congrArg (fun b => before ++ bracketedIf b s ++ behind) hbrackets
            simp only [except_ok_bind, pure_bind, hnative]
          | _ => rfl
  | _ => simp only [fill, Expr.render, htext]

/-- The text of the filled frame is the operand's, in brackets if they belong there, between two
others. -/
def Encloses (t : Tables) (f : Frame) (before behind : String) : Prop :=
  ∀ x s, x.render t = .ok s → x.isNothing = false → s ≠ "" →
    (f.fill x).render t = .ok (before ++ bracketedIf (f.bracketsOperand x) s ++ behind)

/-- The operand has a text, and the frame is written around texts. -/
def Surrounds (t : Tables) (f : Frame) (x : Expr) : Prop :=
  (∃ s, x.render t = .ok s) ∧ ∃ before behind, f.Encloses t before behind

/-- A frame without brackets encloses what it shows between two texts. -/
theorem encloses_of_unbracketed {before behind : String} (hbrackets : f.brackets = fun _ => false)
    (h : ∀ x s, x.render t = .ok s → x.isNothing = false → s ≠ "" →
      (f.fill x).render t = .ok (before ++ s ++ behind)) : f.Encloses t before behind :=
  fun x s hs hx hne => by
    rw [bracketsOperand_eq_false hbrackets]
    exact h x s hs hx hne

/-- A text is not empty if a part of it is not. -/
theorem isEmpty_append_of_ne {before behind : String} (h : s ≠ "") :
    (before ++ s ++ behind).isEmpty = false := by
  rw [Bool.eq_false_iff, ne_eq, String.isEmpty_iff]
  simp [h]

/-- The arguments of an object's creation are written if one of them is. -/
theorem encloses_new {before behind : String} (type : String)
    (hbrackets : f.brackets = fun _ => false)
    (h : ∀ x s, x.render t = .ok s → x.isNothing = false → ∃ args, args = before ++ s ++ behind ∧
      (f.fill x).render t =
        .ok (if args.isEmpty then "new " ++ type else "new(" ++ args ++ ") " ++ type)) :
    f.Encloses t ("new(" ++ before) (behind ++ ") " ++ type) :=
  encloses_of_unbracketed hbrackets fun x s hs hx hne => by
    obtain ⟨args, rfl, hargs⟩ := h x s hs hx
    rw [hargs, isEmpty_append_of_ne hne]
    simp [String.append_assoc]

section New

variable {outer name flags type : Expr} {r : String}

/-- What a new object is put into surrounds its line. -/
theorem surrounds_newOuter (h : ((newOuter name flags type).fill x).render t = .ok r) :
    (newOuter name flags type).Surrounds t x := by
  obtain ⟨s, hs, h⟩ := except_bind_eq_ok.1 h
  obtain ⟨ntext, hname, h⟩ := except_bind_eq_ok.1 h
  obtain ⟨ftext, hflags, h⟩ := except_bind_eq_ok.1 h
  obtain ⟨ttext, htype, -⟩ := except_bind_eq_ok.1 h
  obtain ⟨before, behind, hargs⟩ :=
    argumentText_append (show ([] : List String).length = ([] : List Expr).length from rfl)
      [name, flags] [ntext, ftext]
  refine ⟨⟨s, hs⟩, _, _, encloses_new ttext rfl fun y s hs hy => ⟨_, hargs y s hy, ?_⟩⟩
  simp only [fill, Expr.render, hs, hname, hflags, htype, except_ok_bind]
  rfl

/-- The name of a new object surrounds its line. -/
theorem surrounds_newName (h : ((newName outer flags type).fill x).render t = .ok r) :
    (newName outer flags type).Surrounds t x := by
  obtain ⟨otext, houter, h⟩ := except_bind_eq_ok.1 h
  obtain ⟨s, hs, h⟩ := except_bind_eq_ok.1 h
  obtain ⟨ftext, hflags, h⟩ := except_bind_eq_ok.1 h
  obtain ⟨ttext, htype, -⟩ := except_bind_eq_ok.1 h
  obtain ⟨before, behind, hargs⟩ :=
    argumentText_append (show [otext].length = [outer].length from rfl) [flags] [ftext]
  refine ⟨⟨s, hs⟩, _, _, encloses_new ttext rfl fun y s hs hy => ⟨_, hargs y s hy, ?_⟩⟩
  simp only [fill, Expr.render, hs, houter, hflags, htype, except_ok_bind]
  rfl

/-- The flags of a new object surround its line. -/
theorem surrounds_newFlags (h : ((newFlags outer name type).fill x).render t = .ok r) :
    (newFlags outer name type).Surrounds t x := by
  obtain ⟨otext, houter, h⟩ := except_bind_eq_ok.1 h
  obtain ⟨ntext, hname, h⟩ := except_bind_eq_ok.1 h
  obtain ⟨s, hs, h⟩ := except_bind_eq_ok.1 h
  obtain ⟨ttext, htype, -⟩ := except_bind_eq_ok.1 h
  obtain ⟨before, behind, hargs⟩ :=
    argumentText_append (show [otext, ntext].length = [outer, name].length from rfl) [] []
  refine ⟨⟨s, hs⟩, _, _, encloses_new ttext rfl fun y s hs hy => ⟨_, hargs y s hy, ?_⟩⟩
  simp only [fill, Expr.render, hs, houter, hname, htype, except_ok_bind]
  rfl

/-- The class of a new object surrounds its line. -/
theorem surrounds_newType (h : ((newType outer name flags).fill x).render t = .ok r) :
    (newType outer name flags).Surrounds t x := by
  obtain ⟨otext, houter, h⟩ := except_bind_eq_ok.1 h
  obtain ⟨ntext, hname, h⟩ := except_bind_eq_ok.1 h
  obtain ⟨ftext, hflags, h⟩ := except_bind_eq_ok.1 h
  obtain ⟨s, hs, -⟩ := except_bind_eq_ok.1 h
  let args := argumentText [outer, name, flags] [otext, ntext, ftext]
  refine ⟨⟨s, hs⟩, if args.isEmpty then "new " else "new(" ++ args ++ ") ", "",
    encloses_of_unbracketed rfl fun y s hs _ _ => ?_⟩
  simp only [fill, Expr.render, houter, hname, hflags, hs, except_ok_bind, String.append_empty]
  split <;> rfl

end New

/-- The parameter of a call surrounds its line. -/
theorem surrounds_param {callee : Callee} {r : String}
    (h : ((param callee front back).fill x).render t = .ok r) :
    (param callee front back).Surrounds t x := by
  simp only [fill, Expr.render, renderAll_append, Expr.renderAll] at h
  obtain ⟨ctext, hcallee, h⟩ := except_bind_eq_ok.1 h
  obtain ⟨texts, htexts, -⟩ := except_bind_eq_ok.1 h
  obtain ⟨ftexts, hfront, htexts⟩ := except_bind_eq_ok.1 htexts
  obtain ⟨texts', htexts', -⟩ := except_bind_eq_ok.1 htexts
  obtain ⟨s, hs, htexts'⟩ := except_bind_eq_ok.1 htexts'
  obtain ⟨btexts, hback, -⟩ := except_bind_eq_ok.1 htexts'
  refine ⟨⟨s, hs⟩, ?_⟩
  have hrow : ∀ y s, y.render t = .ok s →
      Expr.renderAll t (front ++ y :: back) = .ok (ftexts ++ s :: btexts) := by
    intro y s hs
    rw [renderAll_append, Expr.renderAll, hfront, hs, hback]
    rfl
  cases callee with
  | native g =>
    obtain ⟨before, behind, hnative⟩ :=
      nativeText_append g (length_of_renderAll hfront) (length_of_renderAll hback)
    refine ⟨before, behind, fun y s hs hy => ?_⟩
    rw [fill, Expr.render, hcallee, except_ok_bind, hrow y s hs]
    exact fun _ => congrArg Except.ok (hnative y s hy)
  | _ =>
    obtain ⟨before, behind, hargs⟩ := argumentText_append (length_of_renderAll hfront) back btexts
    refine ⟨ctext ++ "(" ++ before, behind ++ ")",
      encloses_of_unbracketed rfl fun y s hs hy _ => ?_⟩
    rw [fill, Expr.render, hcallee, except_ok_bind, hrow y s hs]
    simp only [except_ok_bind, hargs y s hy, String.append_assoc]
    rfl

/-- A frame that can be written at all is written around its operand. -/
theorem surrounds {r : String} (h : (f.fill x).render t = .ok r) : f.Surrounds t x := by
  cases f with
  | wrap w =>
    obtain ⟨s, hs, -⟩ := except_bind_eq_ok.1 h
    refine ⟨⟨s, hs⟩, ?_⟩
    cases w with
    | «return» =>
      exact ⟨"return ", "", encloses_of_unbracketed rfl fun y s hs hy _ => by
        simp [fill, Expr.render, hs, hy]⟩
    | gotoLabel =>
      exact ⟨"goto ", "", encloses_of_unbracketed rfl fun y s hs _ _ => by
        simp [fill, Expr.render, hs]⟩
    | eatString =>
      exact ⟨"", "", encloses_of_unbracketed rfl fun y s hs _ _ => by
        simp [fill, Expr.render, hs]⟩
    | boolVariable =>
      exact ⟨"", "", encloses_of_unbracketed rfl fun y s hs _ _ => by
        simp [fill, Expr.render, hs]⟩
    | length =>
      exact ⟨"", ".Length", encloses_of_unbracketed rfl fun y s hs _ _ => by
        simp [fill, Expr.render, hs]⟩
  | pairFirst p second =>
    cases p with
    | assign | assignBool =>
      obtain ⟨s, hs, h⟩ := except_bind_eq_ok.1 h
      obtain ⟨value, hvalue, -⟩ := except_bind_eq_ok.1 h
      exact ⟨⟨s, hs⟩, "", " = " ++ value, encloses_of_unbracketed rfl fun y s hs _ _ => by
        simp [fill, Expr.render, except_ok_bind, hs, hvalue, String.append_assoc]⟩
    | dynArrayElement | arrayElement =>
      obtain ⟨array, harray, h⟩ := except_bind_eq_ok.1 h
      obtain ⟨s, hs, -⟩ := except_bind_eq_ok.1 h
      exact ⟨⟨s, hs⟩, array ++ "[", "]", encloses_of_unbracketed rfl fun y s hs _ _ => by
        simp [fill, Expr.render, except_ok_bind, hs, harray]⟩
  | pairSecond p first =>
    cases p with
    | assign | assignBool =>
      obtain ⟨target, htarget, h⟩ := except_bind_eq_ok.1 h
      obtain ⟨s, hs, -⟩ := except_bind_eq_ok.1 h
      exact ⟨⟨s, hs⟩, target ++ " = ", "", encloses_of_unbracketed rfl fun y s hs _ _ => by
        simp [fill, Expr.render, except_ok_bind, hs, htarget]⟩
    | dynArrayElement | arrayElement =>
      obtain ⟨s, hs, h⟩ := except_bind_eq_ok.1 h
      obtain ⟨index, hindex, -⟩ := except_bind_eq_ok.1 h
      exact ⟨⟨s, hs⟩, "", "[" ++ index ++ "]", encloses_of_unbracketed rfl fun y s hs _ _ => by
        simp [fill, Expr.render, except_ok_bind, hs, hindex, String.append_assoc]⟩
  | contextObject use length size member =>
    obtain ⟨s, hs, h⟩ := except_bind_eq_ok.1 h
    obtain ⟨text, htext, -⟩ := except_bind_eq_ok.1 h
    exact ⟨⟨s, hs⟩, "", "." ++ text, encloses_of_unbracketed rfl fun y s hs _ _ => by
      simp [fill, Expr.render, except_ok_bind, hs, htext, String.append_assoc]⟩
  | contextMember use object length size =>
    obtain ⟨text, htext, h⟩ := except_bind_eq_ok.1 h
    obtain ⟨s, hs, -⟩ := except_bind_eq_ok.1 h
    exact ⟨⟨s, hs⟩, text ++ ".", "", encloses_of_unbracketed rfl fun y s hs _ _ => by
      simp [fill, Expr.render, except_ok_bind, hs, htext]⟩
  | typed use type =>
    cases use with
    | metacast =>
      obtain ⟨name, hname, h⟩ := except_bind_eq_ok.1 h
      obtain ⟨s, hs, -⟩ := except_bind_eq_ok.1 h
      exact ⟨⟨s, hs⟩, "class<" ++ name ++ ">(", ")",
        encloses_of_unbracketed rfl fun y s hs _ _ => by
          simp [fill, Expr.render, except_ok_bind, hs, hname, String.append_assoc]⟩
    | dynamicCast =>
      obtain ⟨name, hname, h⟩ := except_bind_eq_ok.1 h
      obtain ⟨s, hs, -⟩ := except_bind_eq_ok.1 h
      exact ⟨⟨s, hs⟩, name ++ "(", ")", encloses_of_unbracketed rfl fun y s hs _ _ => by
        simp [fill, Expr.render, except_ok_bind, hs, hname]⟩
    | structMember =>
      obtain ⟨s, hs, h⟩ := except_bind_eq_ok.1 h
      obtain ⟨name, hname, -⟩ := except_bind_eq_ok.1 h
      exact ⟨⟨s, hs⟩, "", "." ++ name, encloses_of_unbracketed rfl fun y s hs _ _ => by
        simp [fill, Expr.render, except_ok_bind, hs, hname, String.append_assoc]⟩
  | compareLeft c struct rhs =>
    obtain ⟨s, hs, h⟩ := except_bind_eq_ok.1 h
    obtain ⟨right, hright, -⟩ := except_bind_eq_ok.1 h
    cases c with
    | equal =>
      exact ⟨⟨s, hs⟩, "", " == " ++ right, encloses_of_unbracketed rfl fun y s hs _ _ => by
        simp [fill, Expr.render, except_ok_bind, hs, hright, String.append_assoc]⟩
    | notEqual =>
      exact ⟨⟨s, hs⟩, "", " != " ++ right, encloses_of_unbracketed rfl fun y s hs _ _ => by
        simp [fill, Expr.render, except_ok_bind, hs, hright, String.append_assoc]⟩
  | compareRight c struct lhs =>
    obtain ⟨left, hleft, h⟩ := except_bind_eq_ok.1 h
    obtain ⟨s, hs, -⟩ := except_bind_eq_ok.1 h
    cases c with
    | equal =>
      exact ⟨⟨s, hs⟩, left ++ " == ", "", encloses_of_unbracketed rfl fun y s hs _ _ => by
        simp [fill, Expr.render, except_ok_bind, hs, hleft]⟩
    | notEqual =>
      exact ⟨⟨s, hs⟩, left ++ " != ", "", encloses_of_unbracketed rfl fun y s hs _ _ => by
        simp [fill, Expr.render, except_ok_bind, hs, hleft]⟩
  | switch size =>
    obtain ⟨s, hs, -⟩ := except_bind_eq_ok.1 h
    exact ⟨⟨s, hs⟩, "switch (", ")", encloses_of_unbracketed rfl fun y s hs _ _ => by
      simp [fill, Expr.render, hs]⟩
  | jumpIfNot offset =>
    obtain ⟨s, hs, -⟩ := except_bind_eq_ok.1 h
    exact ⟨⟨s, hs⟩, "if (!", ") goto " ++ offsetText offset.toNat,
      encloses_of_unbracketed rfl fun y s hs _ _ => by
        simp [fill, Expr.render, hs, String.append_assoc]⟩
  | assert line debug =>
    obtain ⟨s, hs, -⟩ := except_bind_eq_ok.1 h
    exact ⟨⟨s, hs⟩, "assert(", ")", encloses_of_unbracketed rfl fun y s hs _ _ => by
      simp [fill, Expr.render, hs]⟩
  | caseOf offset =>
    obtain ⟨s, hs, -⟩ := except_bind_eq_ok.1 h
    exact ⟨⟨s, hs⟩, "case ", ":", encloses_of_unbracketed rfl fun y s hs _ _ => by
      simp [fill, Expr.render, hs]⟩
  | newOuter name flags type => exact surrounds_newOuter h
  | newName outer flags type => exact surrounds_newName h
  | newFlags outer name type => exact surrounds_newFlags h
  | newType outer name flags => exact surrounds_newType h
  | skip size =>
    rw [fill, Expr.render] at h
    exact ⟨⟨r, h⟩, "", "", encloses_of_unbracketed rfl fun y s hs _ _ => by
      simp [fill, Expr.render, hs]⟩
  | conversion =>
    rw [fill, Expr.render] at h
    exact ⟨⟨r, h⟩, "", "", encloses_of_unbracketed rfl fun y s hs _ _ => by
      simp [fill, Expr.render, hs]⟩
  | param callee front back => exact surrounds_param h
  | iterator stop =>
    obtain ⟨s, hs, -⟩ := except_bind_eq_ok.1 h
    exact ⟨⟨s, hs⟩, "foreach ", "", encloses_of_unbracketed rfl fun y s hs _ _ => by
      simp [fill, Expr.render, hs]⟩
  | cast opcode name =>
    obtain ⟨s, hs, -⟩ := except_bind_eq_ok.1 h
    exact ⟨⟨s, hs⟩, castTarget name ++ "(", ")", encloses_of_unbracketed rfl fun y s hs _ _ => by
      simp [fill, Expr.render, hs]⟩
  | removeArray index count =>
    obtain ⟨s, hs, h⟩ := except_bind_eq_ok.1 h
    obtain ⟨itext, hindex, h⟩ := except_bind_eq_ok.1 h
    obtain ⟨ctext, hcount, -⟩ := except_bind_eq_ok.1 h
    exact ⟨⟨s, hs⟩, "", ".Remove(" ++ itext ++ ", " ++ ctext ++ ")",
      encloses_of_unbracketed rfl fun y s hs _ _ => by
        simp [fill, Expr.render, except_ok_bind, hs, hindex, hcount, String.append_assoc]⟩
  | removeIndex array count =>
    obtain ⟨atext, harray, h⟩ := except_bind_eq_ok.1 h
    obtain ⟨s, hs, h⟩ := except_bind_eq_ok.1 h
    obtain ⟨ctext, hcount, -⟩ := except_bind_eq_ok.1 h
    exact ⟨⟨s, hs⟩, atext ++ ".Remove(", ", " ++ ctext ++ ")",
      encloses_of_unbracketed rfl fun y s hs _ _ => by
        simp [fill, Expr.render, except_ok_bind, hs, harray, hcount, String.append_assoc]⟩
  | removeCount array index =>
    obtain ⟨atext, harray, h⟩ := except_bind_eq_ok.1 h
    obtain ⟨itext, hindex, h⟩ := except_bind_eq_ok.1 h
    obtain ⟨s, hs, -⟩ := except_bind_eq_ok.1 h
    exact ⟨⟨s, hs⟩, atext ++ ".Remove(" ++ itext ++ ", ", ")",
      encloses_of_unbracketed rfl fun y s hs _ _ => by
        simp [fill, Expr.render, except_ok_bind, hs, harray, hindex, String.append_assoc]⟩

/-- Only a conversion hands on how tightly its operand binds. -/
theorem binaryPrecedence?_fill_of_ne (hf : f ≠ .conversion) (x y : Expr) :
    (f.fill x).binaryPrecedence? = (f.fill y).binaryPrecedence? := by
  cases f with
  | conversion => exact absurd rfl hf
  | param callee front back => cases callee <;> rfl
  | _ => rfl

end Frame

/-! ## The text of a place -/

variable {frames : List Frame} {a b : String}

theorem bracketsIn_conversion : bracketsIn (.conversion :: frames) x = bracketsIn frames x := by
  rw [bracketsIn]

theorem bracketsIn_cons {f : Frame} (hf : f ≠ .conversion) :
    bracketsIn (f :: frames) x = f.bracketsOperand x :=
  bracketsIn.eq_3 x f frames hf

/-- Whether an expression stands in brackets depends on its precedence only. -/
theorem bracketsIn_congr (h : x.binaryPrecedence? = y.binaryPrecedence?) :
    bracketsIn frames x = bracketsIn frames y := by
  fun_induction bracketsIn frames x with
  | case1 => rfl
  | case2 x frames ih => rw [bracketsIn_conversion, ih h]
  | case3 x f frames hf => rw [bracketsIn_cons hf, Frame.bracketsOperand, Frame.bracketsOperand, h]

theorem bracketsIn_of_none (h : x.binaryPrecedence? = none) : bracketsIn frames x = false := by
  fun_induction bracketsIn frames x with
  | case1 => rfl
  | case2 x frames ih => exact ih h
  | case3 x f frames hf => rw [Frame.bracketsOperand, h]; rfl

theorem bracketsIn_fill_conversion (x : Expr) :
    bracketsIn frames (Frame.conversion.fill x) = bracketsIn frames x :=
  bracketsIn_congr rfl

/-- A script is written the same with another expression of the same text in a place, if both are
bracketed there or neither is. -/
theorem render_plug_congr (htext : x.render t = y.render t) (hx : x.isNothing = false)
    (hy : y.isNothing = false) (hbrackets : bracketsIn frames x = bracketsIn frames y) :
    (plug frames x).render t = (plug frames y).render t := by
  induction frames generalizing x y with
  | nil => exact htext
  | cons f frames ih =>
    have hnext : f.bracketsOperand x = f.bracketsOperand y ∧
        bracketsIn frames (f.fill x) = bracketsIn frames (f.fill y) := by
      by_cases hf : f = .conversion
      · subst hf
        rw [bracketsIn_conversion, bracketsIn_conversion] at hbrackets
        rw [bracketsIn_fill_conversion, bracketsIn_fill_conversion]
        rw [Frame.bracketsOperand_eq_false rfl x, Frame.bracketsOperand_eq_false rfl y]
        exact ⟨rfl, hbrackets⟩
      · rw [bracketsIn_cons hf, bracketsIn_cons hf] at hbrackets
        exact ⟨hbrackets, bracketsIn_congr (Frame.binaryPrecedence?_fill_of_ne hf x y)⟩
    exact ih (Frame.render_fill_congr f htext hx hy hnext.1) (f.isNothing_fill x)
      (f.isNothing_fill y) hnext.2

/-- What can be written in a place can be written by itself. -/
theorem exists_render_of_plug {r : String} (h : (plug frames x).render t = .ok r) :
    ∃ s, x.render t = .ok s := by
  induction frames generalizing x with
  | nil => exact ⟨r, h⟩
  | cons f frames ih =>
    obtain ⟨s, hs⟩ := ih h
    exact (Frame.surrounds hs).1

/-- The texts of two expressions that bind alike are the same but for a part, which is `a` in one
and `b` in the other. -/
structure DifferIn (t : Tables) (a b : String) (x y : Expr) : Prop where
  texts : ∃ before behind,
    x.render t = .ok (before ++ a ++ behind) ∧ y.render t = .ok (before ++ b ++ behind)
  left : x.isNothing = false
  right : y.isNothing = false
  binds : x.binaryPrecedence? = y.binaryPrecedence?

variable (ha : a ≠ "") (hb : b ≠ "")
include ha hb

/-- A frame is written around the part that differs. -/
theorem DifferIn.fill {f : Frame} {r : String} (h : DifferIn t a b x y)
    (hr : (f.fill x).render t = .ok r) : DifferIn t a b (f.fill x) (f.fill y) := by
  obtain ⟨before, behind, hx, hy⟩ := h.texts
  obtain ⟨-, before', behind', hf⟩ := Frame.surrounds hr
  refine ⟨?_, f.isNothing_fill x, f.isNothing_fill y, Frame.binaryPrecedence?_fill_congr h.binds⟩
  have hsame : f.bracketsOperand y = f.bracketsOperand x := by
    rw [Frame.bracketsOperand, Frame.bracketsOperand, h.binds]
  have hx' := hf x _ hx h.left (by simp [ha])
  have hy' := hf y _ hy h.right (by simp [hb])
  rw [hsame] at hy'
  cases hbr : f.bracketsOperand x with
  | false =>
    rw [hbr] at hx' hy'
    refine ⟨before' ++ before, behind ++ behind', hx'.trans ?_, hy'.trans ?_⟩
    all_goals simp [bracketedIf, String.append_assoc]
  | true =>
    rw [hbr] at hx' hy'
    refine ⟨before' ++ "(" ++ before, behind ++ ")" ++ behind', hx'.trans ?_, hy'.trans ?_⟩
    all_goals simp [bracketedIf, String.append_assoc]

/-- Lines that differ in one place do so in every frame around them. -/
theorem DifferIn.plug {r : String} (h : DifferIn t a b x y)
    (hr : (plug frames x).render t = .ok r) :
    DifferIn t a b (plug frames x) (plug frames y) := by
  induction frames generalizing x y with
  | nil => exact h
  | cons f frames ih =>
    have hr' : (Script.plug frames (f.fill x)).render t = .ok r := hr
    obtain ⟨s, hs⟩ := exists_render_of_plug hr'
    exact ih (h.fill ha hb hs) hr'

omit ha hb

/-- An expression that is not taken for the operation it stands for loses its brackets. -/
theorem differIn_plug_of_bracketsIn {r : String} (htext : y.render t = x.render t)
    (hx : x.isNothing = false) (hy : y.isNothing = false) (hnone : y.binaryPrecedence? = none)
    (hbrackets : bracketsIn frames x = true) (hr : (plug frames x).render t = .ok r) :
    ∃ s, x.render t = .ok s ∧ DifferIn t ("(" ++ s ++ ")") s (plug frames x) (plug frames y) := by
  induction frames generalizing x y with
  | nil => cases hbrackets
  | cons f frames ih =>
    by_cases hf : f = .conversion
    · subst hf
      have hfill : ∀ x : Expr, (Frame.conversion.fill x).render t = x.render t := fun x => by
        rw [Frame.fill, Expr.render]
      rw [bracketsIn_conversion, ← bracketsIn_fill_conversion] at hbrackets
      have htext' : (Frame.conversion.fill y).render t = (Frame.conversion.fill x).render t := by
        rw [hfill, hfill, htext]
      have hnext := ih htext' rfl rfl hnone hbrackets hr
      rwa [hfill] at hnext
    · rw [bracketsIn_cons hf] at hbrackets
      have hr' : (plug frames (f.fill x)).render t = .ok r := hr
      obtain ⟨filled, hfilled⟩ := exists_render_of_plug hr'
      obtain ⟨⟨s, hs⟩, before, behind, henc⟩ := Frame.surrounds hfilled
      have hne : s ≠ "" := by
        obtain ⟨q, hq, -⟩ := (Option.any_eq_true _ _).1 hbrackets
        obtain ⟨c, hc, -⟩ := exists_isBreak_of_binaryPrecedence? hq hs
        rintro rfl
        cases hc
      have hy' : f.bracketsOperand y = false := by rw [Frame.bracketsOperand, hnone]; rfl
      have hxtext := henc x s hs hx hne
      have hytext := henc y s (htext.trans hs) hy hne
      rw [hbrackets] at hxtext
      rw [hy'] at hytext
      have hdiffer : DifferIn t ("(" ++ s ++ ")") s (f.fill x) (f.fill y) :=
        ⟨⟨before, behind, hxtext, hytext⟩, f.isNothing_fill x, f.isNothing_fill y,
          Frame.binaryPrecedence?_fill_of_ne hf x y⟩
      have hplugged := hdiffer.plug (by simp) hne hr'
      exact ⟨s, hs, hplugged⟩

/-! ## Scripts -/

/-- A statement of a script is one of its lines. -/
theorem lines_append {e e' : Expr} {ls : List String} (h : lines t (front ++ e :: back) = .ok ls) :
    ∃ above r below, ls = above ++ r :: below ∧ e.render t = .ok r ∧ ∀ r', e'.render t = .ok r' →
      lines t (front ++ e' :: back) = .ok (above ++ r' :: below) := by
  rw [lines, renderAll_append] at h
  obtain ⟨above, habove, h⟩ := except_bind_eq_ok.1 h
  obtain ⟨texts, htexts, h⟩ := except_bind_eq_ok.1 h
  obtain ⟨r, hr, htexts⟩ := except_bind_eq_ok.1 htexts
  obtain ⟨below, hbelow, htexts⟩ := except_bind_eq_ok.1 htexts
  obtain rfl := Except.ok.inj htexts
  obtain rfl := Except.ok.inj h
  refine ⟨above, r, below, rfl, hr, fun r' hr' => ?_⟩
  rw [lines, renderAll_append, habove, Expr.renderAll, hr', hbelow]
  rfl

/-- A wrapper without a text changes nothing in the lines of a script unless the expression inside
it is put in brackets in its place and the wrapper is no conversion. Then the brackets are
missing. -/
theorem lines_wrap (t : Tables) (front back : List Expr) (frames : List Frame)
    (hx : x.isNothing = false) (w : Silent) :
    (w = .conversion ∨ bracketsIn frames x = false →
      lines t (front ++ plug frames (w.wrap x) :: back) =
        lines t (front ++ plug frames x :: back)) ∧
    (w ≠ .conversion → bracketsIn frames x = true → ∀ ls,
      lines t (front ++ plug frames x :: back) = .ok ls →
        ∃ above before s behind below, x.render t = .ok s ∧
          ls = above ++ (before ++ "(" ++ s ++ ")" ++ behind) :: below ∧
          lines t (front ++ plug frames (w.wrap x) :: back) =
            .ok (above ++ (before ++ s ++ behind) :: below)) := by
  constructor
  · intro h
    have hbrackets : bracketsIn frames (w.wrap x) = bracketsIn frames x := by
      by_cases hw : w = .conversion
      · exact bracketsIn_congr (by rw [Silent.binaryPrecedence?_wrap, if_pos hw])
      · rw [h.resolve_left hw]
        exact bracketsIn_of_none (by rw [Silent.binaryPrecedence?_wrap, if_neg hw])
    have hsame : (plug frames (w.wrap x)).render t = (plug frames x).render t :=
      render_plug_congr (Silent.render_wrap w x) (Silent.isNothing_wrap w x) hx hbrackets
    rw [lines, lines, renderAll_append, renderAll_append, Expr.renderAll, Expr.renderAll, hsame]
  · intro hw hbrackets ls hls
    obtain ⟨above, r, below, rfl, hr, hwrapped⟩ := lines_append hls
    have hnone : (w.wrap x).binaryPrecedence? = none := by
      rw [Silent.binaryPrecedence?_wrap, if_neg hw]
    obtain ⟨s, hs, hdiffer⟩ := differIn_plug_of_bracketsIn (Silent.render_wrap w x) hx
      (Silent.isNothing_wrap w x) hnone hbrackets hr
    obtain ⟨before, behind, htext, htext'⟩ := hdiffer.texts
    obtain rfl := Except.ok.inj (hr.symm.trans htext)
    refine ⟨above, before, s, behind, below, hs, ?_, hwrapped _ htext'⟩
    simp only [String.append_assoc]

/-- `true || false`. -/
def disjunction : Expr :=
  .call (.native ⟨132, "||", false, 32, true⟩) [.atom .yes, .atom .no]

/-- The right operand of `self && …`. -/
def conjunct : Frame :=
  .param (.native ⟨130, "&&", false, 30, true⟩) [.atom .selfObject] []

/-- A conversion of the right side of `&&` changes nothing; behind a skip it has no brackets. -/
theorem lines_wrap_disjunction :
    disjunction.isNothing = false ∧
      lines ⟨"", [], [], []⟩ [plug [conjunct] (Silent.conversion.wrap disjunction)] =
        lines ⟨"", [], [], []⟩ [plug [conjunct] disjunction] ∧
      ∃ above before s behind below, disjunction.render ⟨"", [], [], []⟩ = .ok s ∧
        ["self && (true || false)"] = above ++ (before ++ "(" ++ s ++ ")" ++ behind) :: below ∧
        lines ⟨"", [], [], []⟩ [plug [conjunct] ((Silent.skip 5).wrap disjunction)] =
          .ok (above ++ (before ++ s ++ behind) :: below) :=
  ⟨rfl, (lines_wrap _ [] [] [conjunct] rfl .conversion).1 (.inl rfl),
    (lines_wrap _ [] [] [conjunct] rfl (.skip 5)).2 nofun rfl ["self && (true || false)"] rfl⟩

/-- The two lines stand for different operations. -/
theorem lines_skip_disjunction :
    lines ⟨"", [], [], []⟩ [plug [conjunct] disjunction] = .ok ["self && (true || false)"] ∧
      lines ⟨"", [], [], []⟩ [plug [conjunct] ((Silent.skip 5).wrap disjunction)] =
        .ok ["self && true || false"] :=
  ⟨by rfl, by rfl⟩

end UnrealPackage.Script
