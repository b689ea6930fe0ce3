import UnrealPackage.Library.Queries
import UnrealPackage.Proofs.Field.Layout
import UnrealPackage.Proofs.Script.PlainCalls
/-!
# The script of a field

A field is read before the native functions are known, and what its script takes is found by reading
all natives as plain calls. `ScriptAt` is what a record tells about its script, shown in
`scriptAt_of_decodeField`: the bytes between its start and its end are those that this reading took.

`read_as_plainCalls` is the reason why the script can be found again with the functions: unless an
operator has the end of the parameters as an operand, both readings take the same bytes.
-/

namespace UnrealPackage

open Decode

/-! ## What a record tells about its script -/

/-- The place of a script in a payload: the script and what follows it are read as plain calls, up
to what follows. -/
structure ScriptAt (ctx : Script.Context) (payload : List UInt8) (info : StructInfo)
    (front script after : List UInt8) : Prop where
  payload_eq : payload = front ++ (script ++ after)
  start_eq : info.scriptStart = front.length
  end_eq : info.scriptEnd = front.length + script.length
  read : ∃ statements, Script.decode ctx.plain info.scriptSize.toNatClampNeg.toUInt32
    (script ++ after) = .ok (statements, after)

namespace Decode

variable {ctx : Script.Context} {payload input rest : List UInt8} {info : StructInfo}

/-- The script of a holder of fields lies where the record says. -/
theorem scriptAt_of_structInfo (hsuffix : input <:+ payload)
    (h : structInfo ctx payload.length input = .ok (info, rest)) :
    ∃ front script, ScriptAt ctx payload info front script rest := by
  obtain ⟨scriptText, m₁, hm₁, h₁⟩ := framed_compactRef.leaves.step h
  obtain ⟨child, m₂, hm₂, h₂⟩ := framed_compactRef.leaves.step h₁
  obtain ⟨friendlyName, m₃, hm₃, h₃⟩ := framed_compact.leaves.step h₂
  obtain ⟨cppText, m₄, hm₄, h₄⟩ := framed_compactRef.leaves.step h₃
  obtain ⟨line, m₅, hm₅, h₅⟩ := framed_i32.leaves.step h₄
  obtain ⟨textPos, m₆, hm₆, h₆⟩ := framed_i32.leaves.step h₅
  obtain ⟨scriptSize, m₇, hm₇, h₇⟩ := framed_i32.leaves.step h₆
  obtain ⟨before, m₈, hbefore, h₈⟩ := bind_eq_ok.1 h₇
  cases hbefore
  obtain ⟨statements, m₉, hscript, h₉⟩ := bind_eq_ok.1 h₈
  obtain ⟨after, m₁₀, hafter, h₁₀⟩ := bind_eq_ok.1 h₉
  cases hafter
  obtain ⟨rfl, rfl⟩ := pure_eq_ok.1 h₁₀
  obtain ⟨⟨statements, used⟩, hsized, hfst⟩ := map_eq_ok.1 hscript
  obtain ⟨spelled, -, hmiddle, -⟩ := Script.decodeSized_eq_ok.1 hsized
  obtain ⟨front, hfront⟩ : m₇ <:+ payload :=
    hm₇.trans <| hm₆.trans <| hm₅.trans <| hm₄.trans <| hm₃.trans <| hm₂.trans <| hm₁.trans hsuffix
  rw [hmiddle] at hfront hscript
  refine ⟨front, Script.bytesOf spelled.flatten, hfront.symm, ?_, ?_, _, hscript⟩
  · show payload.length - m₇.length = front.length
    rw [hmiddle, ← hfront, List.length_append, Nat.add_sub_cancel]
  · show payload.length - m₉.length = front.length + _
    rw [← hfront, List.length_append, List.length_append]
    omega

/-- Whatever the class of the field is, a body that holds fields begins with what all of them
have. -/
theorem structInfo_of_fieldBody {length : Nat} {c : FieldClass} {body : FieldBody}
    (h : fieldBody ctx length c input = .ok (body, rest)) (hinfo : body.structInfo? = some info) :
    ∃ middle, structInfo ctx length input = .ok (info, middle) := by
  cases c with
  | struct =>
    obtain ⟨info', hread, rfl⟩ := map_eq_ok.1 h
    cases hinfo
    exact ⟨rest, hread⟩
  | function =>
    obtain ⟨info', middle, hread, h₁⟩ := bind_eq_ok.1 h
    obtain ⟨function, _, -, h₂⟩ := bind_eq_ok.1 h₁
    obtain ⟨rfl, -⟩ := pure_eq_ok.1 h₂
    cases hinfo
    exact ⟨middle, hread⟩
  | state =>
    obtain ⟨info', middle, hread, h₁⟩ := bind_eq_ok.1 h
    obtain ⟨state, _, -, h₂⟩ := bind_eq_ok.1 h₁
    obtain ⟨rfl, -⟩ := pure_eq_ok.1 h₂
    cases hinfo
    exact ⟨middle, hread⟩
  | classType =>
    obtain ⟨info', middle, hread, h₁⟩ := bind_eq_ok.1 h
    obtain ⟨state, _, -, h₂⟩ := bind_eq_ok.1 h₁
    obtain ⟨type, _, -, h₃⟩ := bind_eq_ok.1 h₂
    obtain ⟨rfl, -⟩ := pure_eq_ok.1 h₃
    cases hinfo
    exact ⟨middle, hread⟩
  | _ =>
    -- no other body holds fields
    obtain ⟨_, -, rfl⟩ := map_eq_ok.1 h
    cases hinfo

end Decode

/-- The script of a field that was read lies where its record says. -/
theorem scriptAt_of_decodeField {ctx : Script.Context} {schema : SchemaResolver} {index : Nat}
    {payload : List UInt8} {record : FieldRecord} {info : StructInfo}
    (h : decodeField ⟨ctx.tables, schema, ctx.charset⟩ ctx.format index payload = .ok record)
    (hinfo : record.body.structInfo? = some info) :
    ∃ front script after, ScriptAt ctx payload info front script after := by
  obtain ⟨⟨entry, type, name⟩, -, h₁⟩ := except_bind_eq_ok.1 h
  obtain ⟨⟨record', rest⟩, hread, hpure⟩ := except_bind_eq_ok.1 h₁
  cases hpure
  -- the body begins behind the state of the script and the property list, where there are any
  have hbody : ∀ {middle}, middle <:+ payload → ((do
      let super ← compactRef
      let next ← compactRef
      let body ← fieldBody ctx.plain payload.length type
      pure { index, name, super, next, body } : Decode FieldRecord) middle = .ok (record, rest)) →
      ∃ front script after, ScriptAt ctx payload info front script after := by
    intro middle hmiddle hrun
    obtain ⟨super, m₁, hm₁, h₁⟩ := framed_compactRef.leaves.step hrun
    obtain ⟨next, m₂, hm₂, h₂⟩ := framed_compactRef.leaves.step h₁
    obtain ⟨body, m₃, hbody, h₃⟩ := bind_eq_ok.1 h₂
    obtain ⟨rfl, -⟩ := pure_eq_ok.1 h₃
    obtain ⟨after, hstruct⟩ := structInfo_of_fieldBody hbody hinfo
    obtain ⟨front, script, hat⟩ :=
      scriptAt_of_structInfo (hm₂.trans (hm₁.trans hmiddle)) hstruct
    exact ⟨front, script, after, hat.payload_eq, hat.start_eq, hat.end_eq, hat.read⟩
  split at hread
  · split at hread
    · obtain ⟨_, m₁, hm₁, h₁⟩ := framed_stateFrame.leaves.step hread
      obtain ⟨scope, m₂, hm₂, h₂⟩ := (Framed.lift _).leaves.step h₁
      obtain ⟨_, m₃, hm₃, h₃⟩ := (framed_readProperties _ scope).leaves.step h₂
      exact hbody (hm₃.trans (hm₂.trans hm₁)) h₃
    · obtain ⟨scope, m₁, hm₁, h₁⟩ := (Framed.lift _).leaves.step hread
      obtain ⟨_, m₂, hm₂, h₂⟩ := (framed_readProperties _ scope).leaves.step h₁
      exact hbody (hm₂.trans hm₁) h₂
  · split at hread
    · obtain ⟨_, m₁, hm₁, h₁⟩ := framed_stateFrame.leaves.step hread
      exact hbody hm₁ h₁
    · exact hbody (List.suffix_refl _) hread

/-! ## Reading the script again -/

section

variable {ctx : Script.Context} {payload front script after : List UInt8} {info : StructInfo}

/-- The script lies between the places that the record tells. -/
theorem ScriptAt.script_eq (h : ScriptAt ctx payload info front script after) :
    info.script payload = script := by
  rw [StructInfo.script, h.payload_eq, h.start_eq, h.end_eq, ← List.append_assoc,
    ← List.length_append, List.take_left, List.drop_left]

/-- With the functions the script takes all the bytes that it took as plain calls. -/
theorem ScriptAt.rest_eq_nil {statements : List Script.Expr} {used : UInt32} {rest : List UInt8}
    (h : ScriptAt ctx payload info front script after) (hnatives : ctx.natives.Indexed)
    (hread : Script.decodeSized ctx info.scriptSize.toNatClampNeg.toUInt32 (info.script payload) =
      .ok ((statements, used), rest))
    (hclosed : ∀ e ∈ statements, e.OperandsClosed) : rest = [] := by
  rw [h.script_eq] at hread
  have hplain := Script.decodeSized_append (Script.decodeSized_plain hnatives hread hclosed) after
  obtain ⟨statements', hdecode⟩ := h.read
  obtain ⟨⟨statements'', used'⟩, hsized, -⟩ := Decode.map_eq_ok.1 hdecode
  have hafter : rest ++ after = after :=
    congrArg Prod.snd (Except.ok.inj (hplain.symm.trans hsized))
  exact List.append_left_eq_self.1 hafter

end

namespace Library

/-- Natives that a library declares are found by their index, and so are the stock ones. -/
theorem native_indexed (l : Library) : l.native.Indexed :=
  Script.NativeTable.indexed_stock.ofList l.nativeFunctions

/-- What a script of the package of `x` is disassembled with. -/
def scriptContext (l : Library) (x : Located) : Script.Context :=
  ⟨x.package.tables, l.native, x.package.options.format, x.package.options.charset⟩

variable {l : Library} {fullName : String} {x : Located} {record : FieldRecord} {info : StructInfo}
  {data rest : List UInt8} {statements : List Script.Expr} {used : UInt32}

/-- What is disassembled is what is read from the range of the script. -/
theorem disassemble_eq (hx : l.locate fullName = .ok x) (hrecord : l.recordAt x = .ok record)
    (hinfo : record.body.structInfo? = some info) (hdata : x.payload = .ok data)
    (hread : Script.decodeSized (l.scriptContext x) info.scriptSize.toNatClampNeg.toUInt32
      (info.script data) = .ok ((statements, used), rest)) :
    l.disassemble fullName = Script.lines x.package.tables statements := by
  have hdecode := Script.decode_of_decodeSized hread
  have hstatements : x.statements l.native info = .ok statements := by
    rw [Located.statements, hdata]
    change (Script.decode (l.scriptContext x) _ (info.script data) >>= fun read => _) = _
    rw [hdecode]
    rfl
  have hlocate : (l.access l.recordAt).locate fullName = .ok x := hx
  have hfield : (l.access l.recordAt).record x = .ok record := hrecord
  rw [disassemble, Access.disassemble, hlocate, except_ok_bind, hfield, except_ok_bind]
  simp only [hinfo]
  rw [hstatements, except_ok_bind]
  rfl

/-- In disassembling, nothing of the range of the script is left. -/
theorem rest_of_disassemble (hrecord : l.recordAt x = .ok record)
    (hinfo : record.body.structInfo? = some info) (hdata : x.payload = .ok data)
    (hread : Script.decodeSized (l.scriptContext x) info.scriptSize.toNatClampNeg.toUInt32
      (info.script data) = .ok ((statements, used), rest))
    (hclosed : ∀ e ∈ statements, e.OperandsClosed) : rest = [] := by
  obtain ⟨data', hdata', hfield⟩ := except_bind_eq_ok.1 hrecord
  cases hdata.symm.trans hdata'
  have hscript : ∃ front script after,
      ScriptAt (l.scriptContext x) data info front script after :=
    scriptAt_of_decodeField hfield hinfo
  obtain ⟨front, script, after, hat⟩ := hscript
  exact hat.rest_eq_nil l.native_indexed hread hclosed

end Library

/-- A script may be walked without knowing its native functions. Whatever is read with a table that
gives functions by their index, and has no operator with the end of the parameters as an operand, is
read as plain calls from the same bytes, with the same size, as the same statements but for what is
known about the functions. So the range that a record tells for its script, which was found by such
a reading, is taken up exactly by a reading with the functions; and this is how a script is
disassembled. -/
theorem read_as_plainCalls (ctx : Script.Context) (hnatives : ctx.natives.Indexed) :
    (∀ {size used : UInt32} {input rest : List UInt8} {statements : List Script.Expr},
      Script.decodeSized ctx size input = .ok ((statements, used), rest) →
      (∀ e ∈ statements, e.OperandsClosed) →
      Script.decodeSized { ctx with natives := .any } size input =
        .ok ((statements.map Script.Expr.plain, used), rest)) ∧
    (∀ {schema : SchemaResolver} {index : Nat} {payload : List UInt8} {record : FieldRecord}
      {info : StructInfo} {used : UInt32} {rest : List UInt8} {statements : List Script.Expr},
      decodeField ⟨ctx.tables, schema, ctx.charset⟩ ctx.format index payload = .ok record →
      record.body.structInfo? = some info →
      Script.decodeSized ctx info.scriptSize.toNatClampNeg.toUInt32 (info.script payload) =
        .ok ((statements, used), rest) →
      (∀ e ∈ statements, e.OperandsClosed) → rest = []) ∧
    ∀ {l : Library} {fullName : String} {x : Located} {record : FieldRecord} {info : StructInfo}
      {data : List UInt8} {used : UInt32} {rest : List UInt8} {statements : List Script.Expr},
      l.locate fullName = .ok x → l.recordAt x = .ok record →
      record.body.structInfo? = some info → x.payload = .ok data →
      Script.decodeSized (l.scriptContext x) info.scriptSize.toNatClampNeg.toUInt32
        (info.script data) = .ok ((statements, used), rest) →
      (∀ e ∈ statements, e.OperandsClosed) →
      rest = [] ∧ l.disassemble fullName = Script.lines x.package.tables statements := by
  refine ⟨?_, ?_, ?_⟩
  · intro size used input rest statements hread hclosed
    exact Script.decodeSized_plain hnatives hread hclosed
  · intro schema index payload record info used rest statements hfield hinfo hread hclosed
    obtain ⟨front, script, after, hat⟩ := scriptAt_of_decodeField hfield hinfo
    exact hat.rest_eq_nil hnatives hread hclosed
  · intro l fullName x record info data used rest statements hx hrecord hinfo hdata hread hclosed
    have hrest := Library.rest_of_disassemble hrecord hinfo hdata hread hclosed
    exact ⟨hrest, Library.disassemble_eq hx hrecord hinfo hdata hread⟩

/-- Returns a sum. -/
def sumScript : List UInt8 := [0x04, 0x92, 0x26, 0x26, 0x16]

/-- The statement of `sumScript`. -/
def sumStatements : List Script.Expr :=
  [.wrap .return (.call (.native ⟨0x92, "+", false, 20, true⟩) [.atom .intOne, .atom .intOne])]

/-- The payload of a class that has `sumScript` as its script, and nothing else. -/
def sumClass : List UInt8 :=
  List.replicate 14 0 ++ [5, 0, 0, 0] ++ sumScript ++ List.replicate 47 0

/-- A package that holds nothing but `sumClass`. -/
def sumPackage : Package where
  image := sumClass
  header := ⟨0, 0, 0, ⟨0, 0⟩, ⟨0, 0⟩, ⟨0, 0⟩, ⟨0, 0, 0, 0⟩, []⟩
  tables := ⟨"P", [⟨"None", 0⟩, ⟨"Thing", 0⟩], [], [⟨⟨0⟩, ⟨0⟩, ⟨0⟩, 1, 0, 70, 0⟩]⟩
  options := {}

/-- A library with this package alone. -/
def sumLibrary : Library where
  source := ⟨fun _ => .ok (some sumPackage), 1⟩
  nativePackages := []

/-- The sum that a function returns: its script is read by both tables of natives, the range in its
record holds it, and the disassembly renders what was read. -/
theorem read_as_plainCalls_sum :
    Script.decodeSized ⟨sumPackage.tables, .any, .extended, .windows1252⟩ 5 sumScript =
      .ok ((sumStatements.map Script.Expr.plain, 5), []) ∧
    (∃ record info rest,
      decodeField ⟨sumPackage.tables, fun _ => .ok [], .windows1252⟩ .extended 0 sumClass =
        .ok record ∧
      record.body.structInfo? = some info ∧
      Script.decodeSized ⟨sumPackage.tables, .stock, .extended, .windows1252⟩
        info.scriptSize.toNatClampNeg.toUInt32 (info.script sumClass) =
          .ok ((sumStatements, 5), rest) ∧
      rest = []) ∧
    sumLibrary.disassemble "P.Thing" = Script.lines sumPackage.tables sumStatements := by
  have hclosed : ∀ e ∈ sumStatements, e.OperandsClosed := by
    intro e he
    cases List.mem_singleton.1 he
    exact ⟨.inr (by decide), trivial, trivial, trivial⟩
  obtain ⟨hsame, hrange, hlines⟩ := read_as_plainCalls
    ⟨sumPackage.tables, .stock, .extended, .windows1252⟩ Script.NativeTable.indexed_stock
  refine ⟨hsame rfl hclosed, ⟨_, _, [], rfl, rfl, rfl, ?_⟩, ?_⟩
  · exact @hrange (fun _ => .ok []) 0 sumClass _ _ 5 [] sumStatements rfl rfl rfl hclosed
  · have hread := @hlines sumLibrary "P.Thing" ⟨sumPackage, 0⟩ _ _ sumClass 5 [] sumStatements
      rfl rfl rfl rfl rfl hclosed
    exact hread.2

end UnrealPackage
