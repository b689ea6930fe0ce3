import UnrealPackage.Field.Decode
import UnrealPackage.Proofs.Binary.Position
import UnrealPackage.Proofs.Binary.Text
import UnrealPackage.Proofs.Package.Header
import UnrealPackage.Proofs.Property.Extent
import UnrealPackage.Proofs.Script.Spelled
import UnrealPackage.Proofs.Tables.Entry
/-!
# The layout of field records

`FieldContents` is what the payload of a field is made of, and `FieldContents.payload` puts it
together in the order of the format. The property list and the script are taken as bytes, for any
bytes will do that are read to their end; everything else is written from its value.

`decodeField_payload` says that such a payload is read back, whatever stands behind it, with the
places of the script and of the default values as they are in it, and that no shorter beginning of
it is read.
-/

namespace UnrealPackage

/-- The bytes between the places where a script begins and ends. -/
def StructInfo.script (info : StructInfo) (payload : List UInt8) : List UInt8 :=
  (payload.take info.scriptEnd).drop info.scriptStart

/-- The state of a script, in front of the properties of an object that has one. -/
structure StateFrame where
  node : Int32
  stateNode : Int32
  probeMask : UInt64
  latentAction : Int32
  offset : Int32

/-! ## Writing -/

namespace Encode

/-- An eight-byte number. -/
def u64 (v : UInt64) : List UInt8 := littleEndian 8 v.toNat

/-- Items with their number in front. -/
def list (item : α → List UInt8) (items : List α) : List UInt8 :=
  compact (Int32.ofNat items.length) ++ items.flatMap item

/-- The state of a script. -/
def stateFrame (s : StateFrame) : List UInt8 :=
  compact s.node ++ compact s.stateNode ++ u64 s.probeMask ++ i32 s.latentAction ++ compact s.offset

/-- What every holder of fields has, up to its script. -/
def structInfo (s : StructInfo) : List UInt8 :=
  compactRef s.scriptText ++ compactRef s.child ++ compact s.friendlyName ++ compactRef s.cppText ++
    i32 s.line ++ i32 s.textPos ++ i32 s.scriptSize

/-- What a function has behind its script. -/
def functionInfo (f : FunctionInfo) : List UInt8 :=
  u16 f.nativeIndex ++ [f.precedence] ++ u32 f.flags ++ f.replicationOffset.elim [] u16

/-- What a state has behind its script. -/
def stateInfo (s : StateInfo) : List UInt8 :=
  u64 s.probeMask ++ u64 s.ignoreMask ++ u16 s.labelTableOffset ++ u32 s.flags

/-- A class that another one was compiled against. -/
def dependency (d : Dependency) : List UInt8 :=
  compactRef d.type ++ i32 d.deep ++ i32 d.scriptTextCrc

/-- What a class has besides, up to its default values. -/
def classInfo (c : ClassInfo) : List UInt8 :=
  u32 c.flags ++ guid c.guid ++ list dependency c.dependencies ++ list compact c.packageImports ++
    compactRef c.within ++ compact c.configName ++ list compact c.hideCategories

/-- What the type of a property refers to. -/
def propertyType : PropertyType → List UInt8
  | .byte r | .object r | .array r | .struct r | .delegate r => compactRef r
  | .classRef r s | .map r s => compactRef r ++ compactRef s
  | .fixedArray inner count => compactRef inner ++ compact count
  | .int | .bool | .float | .name | .str | .string | .pointer => []

/-- The body of a property. -/
def propertyInfo (p : PropertyInfo) : List UInt8 :=
  u16 p.arrayDim ++ u16 p.elementSize ++ u32 p.flags ++ compact p.category ++
    p.replicationOffset.elim [] u16 ++ propertyType p.type

end Encode

namespace FieldBody

/-- What a body has in front of its script. -/
def beforeScript : FieldBody → List UInt8
  | struct s | function s _ | state s _ | classType s _ _ => Encode.structInfo s
  | property _ | enum _ | const _ => []

/-- What a body has behind its script, or all of it if it can have none. -/
def behindScript (cs : Charset) : FieldBody → List UInt8
  | struct _ => []
  | function _ f => Encode.functionInfo f
  | state _ s => Encode.stateInfo s
  | classType _ s c => Encode.stateInfo s ++ Encode.classInfo c
  | enum names => Encode.list Encode.compact names
  | const text => Encode.text cs text
  | property p => Encode.propertyInfo p

/-- The body with its script from `start` to `stop` and its default values from `defaults` on. -/
def place (start stop defaults : Nat) : FieldBody → FieldBody
  | struct s => struct { s with scriptStart := start, scriptEnd := stop }
  | function s f => function { s with scriptStart := start, scriptEnd := stop } f
  | state s i => state { s with scriptStart := start, scriptEnd := stop } i
  | classType s i c =>
    classType { s with scriptStart := start, scriptEnd := stop } i
      { c with defaultsStart := defaults }
  | body => body

theorem structInfo?_place (start stop defaults : Nat) (body : FieldBody) :
    (body.place start stop defaults).structInfo? =
      body.structInfo?.map fun s => { s with scriptStart := start, scriptEnd := stop } := by
  cases body <;> rfl

theorem defaultsStart_of_place {start stop defaults : Nat} {body : FieldBody} {s : StructInfo}
    {i : StateInfo} {c : ClassInfo} (h : body.place start stop defaults = classType s i c) :
    c.defaultsStart = defaults := by
  cases body <;> cases h
  rfl

/-- The parts of the body have a stored form: counts fit their number, and a replication offset is
there exactly if the flags say so. -/
def Fits (cs : Charset) : FieldBody → Prop
  | struct _ | state _ _ => True
  | function _ f => f.replicationOffset.isSome = hasFlag f.flags FunctionFlag.net
  | classType _ _ c => c.dependencies.length < 0x80000000 ∧ c.packageImports.length < 0x80000000 ∧
      c.hideCategories.length < 0x80000000
  | enum names => names.length < 0x80000000
  | const text => StorableText text ∧ (Encode.text cs text).length < 0x100000000
  | property p => p.replicationOffset.isSome = hasFlag p.flags PropertyFlag.net

end FieldBody

/-- What the payload of a field is made of. The places that the body tells do not matter. -/
structure FieldContents where
  frame : Option StateFrame
  /-- The property list as it is stored. -/
  properties : List UInt8
  super : ObjectRef
  next : ObjectRef
  body : FieldBody
  /-- The script as it is stored. -/
  script : List UInt8

namespace FieldContents

/-- Everything in front of the script. -/
def head (c : FieldContents) : List UInt8 :=
  c.frame.elim [] Encode.stateFrame ++ c.properties ++ Encode.compactRef c.super ++
    Encode.compactRef c.next ++ c.body.beforeScript

/-- The payload, in the order of the format. -/
def payload (c : FieldContents) (cs : Charset) : List UInt8 :=
  c.head ++ c.script ++ c.body.behindScript cs

/-- The record of the field, with the places where the script and the default values stand. -/
def record (c : FieldContents) (cs : Charset) (index : Nat) (name : String) : FieldRecord where
  index
  name
  super := c.super
  next := c.next
  body := c.body.place c.head.length (c.head.length + c.script.length) (c.payload cs).length

/-- The contents are those of the export at an index: there is a state exactly if its flags say so,
and a property list of its class unless it is a class itself. -/
structure Fits (c : FieldContents) (ctx : PropertyContext) (format : Script.ScriptFormat)
    (index : Nat) (entry : ExportEntry) : Prop where
  frame : c.frame.isSome = hasFlag entry.flags ObjectFlag.hasStack
  properties : if c.body.fieldClass = .classType then c.properties = []
    else ∃ scope properties, ctx.tables.objectClassFullName (.ofExport index) = .ok scope ∧
      readProperties ctx scope c.properties = .ok (properties, [])
  /-- The script is read to its end as plain calls; what holds no fields has none. -/
  script : match c.body.structInfo? with
    | some info => ∃ statements, Script.decode ⟨ctx.tables, .any, format, ctx.charset⟩
        info.scriptSize.toNatClampNeg.toUInt32 c.script = .ok (statements, [])
    | none => c.script = []
  body : c.body.Fits ctx.charset

end FieldContents

/-! ## Places -/

namespace Decode

variable {α β : Type} {d : Decode α} {a : α} {front : List UInt8} {position : Nat}

/-- The number of bytes left tells the position. -/
theorem readsAt_left (g : Nat → β) :
    ReadsAt (fun length => left >>= fun after => pure (g (length - after))) position []
      (g position) := by
  intro rest
  refine bind_eq_ok.2 ⟨rest.length, rest, rfl, ?_⟩
  rw [List.nil_append, Nat.add_sub_cancel]
  rfl

/-- A position told by how much is left takes no bytes. -/
theorem framedAt_left (g : Nat → β) :
    FramedAt fun length => left >>= fun after => pure (g (length - after)) := by
  intro position input b rest h
  obtain ⟨after, middle, hafter, h⟩ := bind_eq_ok.1 h
  cases hafter
  obtain ⟨rfl, rfl⟩ := pure_eq_ok.1 h
  refine ⟨[], rfl, ?_⟩
  rw [Nat.add_sub_cancel]
  exact readsAt_left g

/-- Between two looks at the number of bytes left stands what was read between them. -/
theorem readsAt_between (h : Reads d front a) (g : Nat → Nat → β) :
    ReadsAt (fun length => left >>= fun before => d >>= fun _ => left >>= fun after =>
      pure (g (length - before) (length - after))) position front
      (g position (position + front.length)) := by
  intro rest
  refine bind_eq_ok.2 ⟨_, _, rfl, bind_eq_ok.2 ⟨a, rest, h rest, ?_⟩⟩
  refine bind_eq_ok.2 ⟨rest.length, rest, rfl, ?_⟩
  rw [Nat.add_sub_cancel, List.length_append, ← Nat.add_assoc, Nat.add_sub_cancel]
  rfl

/-- What is framed stays so when the positions around it are told. -/
theorem framedAt_between (hd : Framed d) (g : Nat → Nat → β) :
    FramedAt fun length => left >>= fun before => d >>= fun _ => left >>= fun after =>
      pure (g (length - before) (length - after)) := by
  intro position input b rest h
  obtain ⟨before, _, hbefore, h⟩ := bind_eq_ok.1 h
  cases hbefore
  obtain ⟨a, middle, ha, h⟩ := bind_eq_ok.1 h
  obtain ⟨front, rfl, hreads⟩ := hd ha
  obtain ⟨after, _, hafter, h⟩ := bind_eq_ok.1 h
  cases hafter
  obtain ⟨rfl, rfl⟩ := pure_eq_ok.1 h
  refine ⟨front, rfl, ?_⟩
  rw [Nat.add_sub_cancel, List.length_append, ← Nat.add_assoc, Nat.add_sub_cancel]
  exact readsAt_between hreads g

/-! ## The parts of a body -/

theorem reads_u64 (v : UInt64) : Reads u64 (Encode.u64 v) v := by
  have h := (reads_littleEndian (n := 8) v.toNat_lt).map UInt64.ofNat
  rwa [UInt64.ofNat_toNat] at h

/-- A number that is only there with a flag is read back where the flag tells of it. -/
theorem reads_onlyIf {flag : Bool} {v : Option UInt16} (h : v.isSome = flag) :
    Reads (onlyIf flag u16) (v.elim [] Encode.u16) v := by
  subst h
  cases v with
  | none => exact .pure _
  | some v => exact (reads_u16 v).map some

theorem framed_onlyIf (flag : Bool) (hd : Framed d) : Framed (onlyIf flag d) :=
  .ite (hd.map some) (.pure _)

/-- A list with its number in front is read item by item. -/
theorem reads_list {item : Decode α} {encode : α → List UInt8} {items : List α}
    (h : ∀ a, Reads item (encode a) a) (hlength : items.length < 0x80000000) :
    Reads (list item) (Encode.list encode items) items := by
  refine (reads_compact _).bind ?_
  rw [counted, Int32.toInt_ofNat_of_lt hlength, Int.toNat_natCast]
  exact .times fun a _ => h a

theorem framed_list {item : Decode α} (h : Framed item) : Framed (list item) :=
  framed_compact.bind fun _ => h.times _

theorem reads_guid (g : Guid) : Reads guid (Encode.guid g) g :=
  fun _ => guid_eq_ok.2 rfl

theorem framed_guid : Framed guid :=
  framed_u32.bind fun _ => framed_u32.bind fun _ => framed_u32.bind fun _ =>
    framed_u32.bind fun _ => .pure _

/-- The frame of a state is skipped, whether or not it runs code. -/
theorem reads_stateFrame (s : StateFrame) : Reads stateFrame (Encode.stateFrame s) () := by
  have hread : Reads stateFrame _ _ :=
    (reads_compact s.node).bind <| (reads_compact s.stateNode).bind <|
    (reads_u64 s.probeMask).bind <| (reads_i32 s.latentAction).bind <|
    (reads_compact s.offset).bindPure fun _ => ()
  exact hread.congr (by simp only [Encode.stateFrame, List.append_assoc])

theorem framed_stateFrame : Framed stateFrame :=
  framed_compact.bind fun _ => framed_compact.bind fun _ => framed_u64.bind fun _ =>
    framed_i32.bind fun _ => framed_compact.bind fun _ => .pure _

/-- What is told about a function is read back, its replication offset where the flags tell of it.
-/
theorem reads_functionInfo {f : FunctionInfo}
    (h : f.replicationOffset.isSome = hasFlag f.flags FunctionFlag.net) :
    Reads functionInfo (Encode.functionInfo f) f := by
  have hread : Reads functionInfo _ _ :=
    (reads_u16 f.nativeIndex).bind <| (reads_u8 f.precedence).bind <| (reads_u32 f.flags).bind <|
    (reads_onlyIf h).bindPure _
  exact hread.congr (by simp only [Encode.functionInfo, List.append_assoc])

theorem framed_functionInfo : Framed functionInfo :=
  framed_u16.bind fun _ => framed_u8.bind fun _ => framed_u32.bind fun _ =>
    (framed_onlyIf _ framed_u16).bind fun _ => .pure _

theorem reads_stateInfo (s : StateInfo) : Reads stateInfo (Encode.stateInfo s) s := by
  have hread : Reads stateInfo _ _ :=
    (reads_u64 s.probeMask).bind <| (reads_u64 s.ignoreMask).bind <|
    (reads_u16 s.labelTableOffset).bind <| (reads_u32 s.flags).bindPure _
  exact hread.congr (by simp only [Encode.stateInfo, List.append_assoc])

theorem framed_stateInfo : Framed stateInfo :=
  framed_u64.bind fun _ => framed_u64.bind fun _ => framed_u16.bind fun _ =>
    framed_u32.bind fun _ => .pure _

theorem reads_dependency (x : Dependency) : Reads dependency (Encode.dependency x) x := by
  have hread : Reads dependency _ _ :=
    (reads_compactRef x.type).bind <| (reads_i32 x.deep).bind <|
    (reads_i32 x.scriptTextCrc).bindPure _
  exact hread.congr (by simp only [Encode.dependency, List.append_assoc])

theorem framed_dependency : Framed dependency :=
  framed_compactRef.bind fun _ => framed_i32.bind fun _ => framed_i32.bind fun _ => .pure _

/-- What a property adds for its class is read back as it is. -/
theorem reads_propertyType (p : PropertyType) :
    Reads (propertyType p.fieldClass) (Encode.propertyType p) p := by
  cases p with
  | classRef r s => exact (reads_compactRef r).bind ((reads_compactRef s).bindPure _)
  | map r s => exact (reads_compactRef r).bind ((reads_compactRef s).bindPure _)
  | fixedArray inner count => exact (reads_compactRef inner).bind ((reads_compact count).bindPure _)
  | byte r | object r | array r | struct r | delegate r => exact (reads_compactRef r).map _
  | int | bool | float | name | str | string | pointer => exact .pure _

/-- What a property adds for its class is framed, whatever class it is. -/
theorem framed_propertyType (c : FieldClass) : Framed (propertyType c) := by
  cases c with
  | classProperty | mapProperty =>
    exact framed_compactRef.bind fun _ => framed_compactRef.bind fun _ => .pure _
  | fixedArrayProperty => exact framed_compactRef.bind fun _ => framed_compact.bind fun _ => .pure _
  | byteProperty | objectProperty | arrayProperty | structProperty | delegateProperty =>
    exact framed_compactRef.map _
  | _ => exact .pure _

/-- What is told about a property is read back, its replication offset where the flags tell of it.
-/
theorem reads_propertyInfo {p : PropertyInfo}
    (h : p.replicationOffset.isSome = hasFlag p.flags PropertyFlag.net) :
    Reads (propertyInfo p.type.fieldClass) (Encode.propertyInfo p) p := by
  have hread : Reads (propertyInfo p.type.fieldClass) _ _ :=
    (reads_u16 p.arrayDim).bind <| (reads_u16 p.elementSize).bind <| (reads_u32 p.flags).bind <|
    (reads_compact p.category).bind <| (reads_onlyIf h).bind <|
    (reads_propertyType p.type).bindPure _
  exact hread.congr (by simp only [Encode.propertyInfo, List.append_assoc])

theorem framed_propertyInfo (c : FieldClass) : Framed (propertyInfo c) :=
  framed_u16.bind fun _ => framed_u16.bind fun _ => framed_u32.bind fun _ =>
    framed_compact.bind fun _ => (framed_onlyIf _ framed_u16).bind fun _ =>
      (framed_propertyType c).bind fun _ => .pure _

/-- Scripts are framed whatever their size is. -/
theorem framed_script (ctx : Script.Context) (size : UInt32) : Framed (Script.decode ctx size) := by
  intro input statements rest h
  obtain ⟨⟨statements', used⟩, hsized, rfl⟩ := map_eq_ok.1 h
  obtain ⟨spelled, hs, rfl, hused⟩ := Script.decodeSized_eq_ok.1 hsized
  refine ⟨_, rfl, fun rest => ?_⟩
  exact Script.decode_of_decodeSized (Script.decodeSized_eq_ok.2 ⟨spelled, hs, rfl, hused⟩)

/-- A holder of fields is read with the place of its script. -/
theorem readsAt_structInfo {ctx : Script.Context} (s : StructInfo) {script : List UInt8}
    {statements : List Script.Expr}
    (h : Script.decode { ctx with natives := .any } s.scriptSize.toNatClampNeg.toUInt32 script =
      .ok (statements, [])) :
    ReadsAt (structInfo ctx) position (Encode.structInfo s ++ script)
      { s with
        scriptStart := position + (Encode.structInfo s).length
        scriptEnd := position + (Encode.structInfo s).length + script.length } := by
  obtain ⟨front, hfront, hread⟩ := framed_script _ _ h
  rw [List.append_nil] at hfront
  subst hfront
  have hread' : ReadsAt (structInfo ctx) position _ _ :=
    ((reads_compactRef s.scriptText).at _).bind <| ((reads_compactRef s.child).at _).bind <|
    ((reads_compact s.friendlyName).at _).bind <| ((reads_compactRef s.cppText).at _).bind <|
    ((reads_i32 s.line).at _).bind <| ((reads_i32 s.textPos).at _).bind <|
    ((reads_i32 s.scriptSize).at _).bind <|
    readsAt_between hread fun start stop => { s with scriptStart := start, scriptEnd := stop }
  refine hread'.congr ?_ ?_
  · simp only [Encode.structInfo, List.append_assoc]
  · simp only [Encode.structInfo, List.length_append, Nat.add_assoc]

theorem framedAt_structInfo (ctx : Script.Context) : FramedAt (structInfo ctx) :=
  framed_compactRef.at.bind fun _ => framed_compactRef.at.bind fun _ =>
    framed_compact.at.bind fun _ => framed_compactRef.at.bind fun _ =>
      framed_i32.at.bind fun _ => framed_i32.at.bind fun _ => framed_i32.at.bind fun _ =>
        framedAt_between (framed_script _ _) fun _ _ => _

/-- A class is read with the place of its default values. -/
theorem readsAt_classInfo {c : ClassInfo} (hdependencies : c.dependencies.length < 0x80000000)
    (himports : c.packageImports.length < 0x80000000)
    (hhidden : c.hideCategories.length < 0x80000000) :
    ReadsAt classInfo position (Encode.classInfo c)
      { c with defaultsStart := position + (Encode.classInfo c).length } := by
  have hread : ReadsAt classInfo position _ _ :=
    ((reads_u32 c.flags).at _).bind <| ((reads_guid c.guid).at _).bind <|
    ((reads_list reads_dependency hdependencies).at _).bind <|
    ((reads_list reads_compact himports).at _).bind <| ((reads_compactRef c.within).at _).bind <|
    ((reads_compact c.configName).at _).bind <| ((reads_list reads_compact hhidden).at _).bind <|
    readsAt_left fun defaults => { c with defaultsStart := defaults }
  refine hread.congr ?_ ?_
  · simp only [Encode.classInfo, List.append_assoc, List.append_nil]
  · simp only [Encode.classInfo, List.length_append, Nat.add_assoc]

theorem framedAt_classInfo : FramedAt classInfo :=
  framed_u32.at.bind fun _ => framed_guid.at.bind fun _ => (framed_list framed_dependency).at.bind
    fun _ => (framed_list framed_compact).at.bind fun _ => framed_compactRef.at.bind fun _ =>
      framed_compact.at.bind fun _ => (framed_list framed_compact).at.bind fun _ =>
        framedAt_left fun _ => _

variable {ctx : Script.Context}

theorem fieldBody_property (p : PropertyType) (length : Nat) :
    fieldBody ctx length p.fieldClass = .property <$> propertyInfo p.fieldClass := by
  cases p <;> rfl

/-- A body is read with its places. -/
theorem readsAt_fieldBody (position : Nat) {ctx : Script.Context} {body : FieldBody}
    {script : List UInt8} (hfits : body.Fits ctx.charset)
    (hscript : match body.structInfo? with
      | some info => ∃ statements, Script.decode { ctx with natives := .any }
          info.scriptSize.toNatClampNeg.toUInt32 script = .ok (statements, [])
      | none => script = []) :
    ReadsAt (fun length => fieldBody ctx length body.fieldClass) position
      (body.beforeScript ++ script ++ body.behindScript ctx.charset)
      (body.place (position + body.beforeScript.length)
        (position + body.beforeScript.length + script.length)
        (position + (body.beforeScript ++ script ++ body.behindScript ctx.charset).length)) := by
  cases body with
  | struct s =>
    obtain ⟨statements, hscript⟩ := hscript
    exact ((readsAt_structInfo s hscript).map _).congr (List.append_nil _).symm rfl
  | function s f =>
    obtain ⟨statements, hscript⟩ := hscript
    exact (readsAt_structInfo s hscript).bind (((reads_functionInfo hfits).at _).bindPure _)
  | state s i =>
    obtain ⟨statements, hscript⟩ := hscript
    exact (readsAt_structInfo s hscript).bind (((reads_stateInfo i).at _).bindPure _)
  | classType s i c =>
    obtain ⟨statements, hscript⟩ := hscript
    obtain ⟨hdependencies, himports, hhidden⟩ := hfits
    have hread : ReadsAt (fun length => fieldBody ctx length .classType) position _ _ :=
      (readsAt_structInfo s hscript).bind <| ((reads_stateInfo i).at _).bind <|
      (readsAt_classInfo hdependencies himports hhidden).bindPure _
    refine hread.congr rfl ?_
    simp only [FieldBody.place, FieldBody.beforeScript, FieldBody.behindScript, List.length_append,
      Nat.add_assoc]
  | enum names =>
    subst hscript
    exact (reads_list reads_compact hfits).at _ |>.map _
  | const text =>
    subst hscript
    exact (reads_text hfits.1 hfits.2).at _ |>.map _
  | property p =>
    subst hscript
    simp only [FieldBody.fieldClass, fieldBody_property]
    exact (reads_propertyInfo hfits).at _ |>.map _

/-- The part of a record that depends on its class is framed. -/
theorem framedAt_fieldBody (c : FieldClass) : FramedAt fun length => fieldBody ctx length c := by
  cases c with
  | struct => exact (framedAt_structInfo ctx).map _
  | function =>
    exact (framedAt_structInfo ctx).bind fun _ => framed_functionInfo.at.bind fun _ =>
      (Framed.pure _).at
  | state =>
    exact (framedAt_structInfo ctx).bind fun _ => framed_stateInfo.at.bind fun _ =>
      (Framed.pure _).at
  | classType =>
    exact (framedAt_structInfo ctx).bind fun _ => framed_stateInfo.at.bind fun _ =>
      framedAt_classInfo.bind fun _ => (Framed.pure _).at
  | enum => exact ((framed_list framed_compact).map _).at
  | const => exact ((framed_text _).map _).at
  | _ => exact ((framed_propertyInfo _).map _).at

end Decode

/-! ## The whole record -/

open Decode

section

variable {ctx : PropertyContext} {format : Script.ScriptFormat} {index : Nat} {entry : ExportEntry}
  {name : String} {c : FieldContents}

/-- What a payload has in front of its references: a state if it is flagged, and a property list
unless it is a class. -/
def Decode.fieldLead (ctx : PropertyContext) (index : Nat) (entry : ExportEntry)
    (type : FieldClass) : Decode Unit := do
  if hasFlag entry.flags ObjectFlag.hasStack then stateFrame
  if type ≠ .classType then
    let scope ← liftM (ctx.tables.objectClassFullName (.ofExport index))
    let _ ← readProperties ctx scope

/-- The record of a field in a payload of `length` bytes. -/
def Decode.fieldRecord (ctx : PropertyContext) (format : Script.ScriptFormat) (index : Nat)
    (entry : ExportEntry) (type : FieldClass) (name : String) (length : Nat) :
    Decode FieldRecord := do
  fieldLead ctx index entry type
  let super ← compactRef
  let next ← compactRef
  let body ← fieldBody ⟨ctx.tables, .any, format, ctx.charset⟩ length type
  pure { index, name, super, next, body }

/-- A field is decoded as a record of its class, of as many bytes as its payload has. -/
theorem decodeField_eq {type : FieldClass}
    (h : fieldHead ctx.tables index = .ok (entry, type, name)) (payload : List UInt8) :
    decodeField ctx format index payload =
      Prod.fst <$> fieldRecord ctx format index entry type name payload.length payload := by
  rw [decodeField, h, except_ok_bind]
  simp only [fieldRecord, fieldLead]
  cases hasFlag entry.flags ObjectFlag.hasStack <;> by_cases htype : type = .classType <;>
    simp only [htype, ne_eq, not_true_eq_false, not_false_eq_true, Bool.false_eq_true, if_true,
      if_false, bind_assoc, pure_bind] <;> rfl

/-- What stands in front of a record, a frame and properties, is read over. -/
theorem reads_fieldLead (hfits : c.Fits ctx format index entry) :
    Reads (fieldLead ctx index entry c.body.fieldClass)
      (c.frame.elim [] Encode.stateFrame ++ c.properties) () := by
  have hproperties : Reads (if c.body.fieldClass ≠ .classType then do
        let scope ← liftM (ctx.tables.objectClassFullName (.ofExport index))
        let _ ← readProperties ctx scope
      else pure () : Decode Unit) c.properties () := by
    have hlist := hfits.properties
    split at hlist
    · next htype =>
      rw [if_neg (not_not_intro htype), hlist]
      exact .pure _
    · next htype =>
      obtain ⟨scope, properties, hscope, hread⟩ := hlist
      obtain ⟨front, hfront, hreads⟩ := framed_readProperties ctx scope hread
      rw [List.append_nil] at hfront
      rw [if_pos htype, hfront]
      exact (Reads.lift hscope).bind (hreads.bindPure _)
  have hframe := hfits.frame
  rw [fieldLead]
  cases hc : c.frame with
  | none =>
    rw [hc] at hframe
    rw [← hframe]
    exact hproperties
  | some s =>
    rw [hc] at hframe
    rw [← hframe]
    exact (reads_stateFrame s).bind hproperties

/-- What stands in front of a record is framed. -/
theorem framed_fieldLead (ctx : PropertyContext) (index : Nat) (entry : ExportEntry)
    (type : FieldClass) : Framed (fieldLead ctx index entry type) := by
  have hproperties : Framed (if type ≠ .classType then do
        let scope ← liftM (ctx.tables.objectClassFullName (.ofExport index))
        let _ ← readProperties ctx scope
      else pure () : Decode Unit) :=
    .ite ((Framed.lift _).bind fun scope => (framed_readProperties ctx scope).bind fun _ => .pure _)
      (.pure _)
  exact .ite (framed_stateFrame.bind fun _ => hproperties) hproperties

/-- A record is read from its payload, with the ranges in it counted from the beginning. -/
theorem readsAt_fieldRecord (hfits : c.Fits ctx format index entry) :
    ReadsAt (fieldRecord ctx format index entry c.body.fieldClass name) 0 (c.payload ctx.charset)
      (c.record ctx.charset index name) := by
  have hbody := fun position => @readsAt_fieldBody position
    ⟨ctx.tables, .any, format, ctx.charset⟩ _ _ hfits.body hfits.script
  have hread : ReadsAt (fieldRecord ctx format index entry c.body.fieldClass name) 0 _ _ :=
    ((reads_fieldLead hfits).at 0).bind <| ((reads_compactRef c.super).at _).bind <|
    ((reads_compactRef c.next).at _).bind <| (hbody _).bindPure _
  refine hread.congr ?_ ?_
  · simp only [FieldContents.payload, FieldContents.head, List.append_assoc]
  · simp only [FieldContents.record, FieldContents.payload, FieldContents.head, List.length_append,
      Nat.zero_add, Nat.add_assoc]

theorem framedAt_fieldRecord (ctx : PropertyContext) (format : Script.ScriptFormat) (index : Nat)
    (entry : ExportEntry) (type : FieldClass) (name : String) :
    FramedAt (fieldRecord ctx format index entry type name) :=
  (framed_fieldLead ctx index entry type).at.bind fun _ => framed_compactRef.at.bind fun _ =>
    framed_compactRef.at.bind fun _ => (framedAt_fieldBody type).bind fun _ => (Framed.pure _).at

end

/-- The short name of a class of fields is the name of that class. -/
theorem FieldClass.ofName_name (c : FieldClass) : ofName c.name = .ok c := by
  cases c <;> rfl

/-- A field of any class is read back from its payload, whatever stands behind it: the record tells
the contents, the range of the script holds the bytes of the script, and the default values of a
class begin where the payload ends. No shorter beginning of the payload is read. -/
theorem decodeField_payload {ctx : PropertyContext} {format : Script.ScriptFormat} {index : Nat}
    {entry : ExportEntry} {name : String} {c : FieldContents}
    (hentry : ctx.tables.exportAt index = .ok entry)
    (hclass : ctx.tables.objectClassName (.ofExport index) = .ok c.body.fieldClass.name)
    (hname : ctx.tables.name entry.objectName = .ok name)
    (hfits : c.Fits ctx format index entry) :
    (∀ more, decodeField ctx format index (c.payload ctx.charset ++ more) =
      .ok (c.record ctx.charset index name)) ∧
    (∀ info, (c.record ctx.charset index name).body.structInfo? = some info →
      info.script (c.payload ctx.charset) = c.script ∧
        info.scriptEnd = info.scriptStart + c.script.length) ∧
    (∀ info state type, (c.record ctx.charset index name).body = .classType info state type →
      type.defaultsStart = (c.payload ctx.charset).length) ∧
    ∀ front, front <+: c.payload ctx.charset → front ≠ c.payload ctx.charset →
      ∃ e, decodeField ctx format index front = .error e := by
  have hhead : fieldHead ctx.tables index = .ok (entry, c.body.fieldClass, name) := by
    rw [fieldHead, hentry, hclass, except_ok_bind, except_ok_bind, FieldClass.ofName_name, hname]
    rfl
  have hread : ReadsAt _ 0 _ (c.record ctx.charset index name) := readsAt_fieldRecord hfits
  refine ⟨fun more => ?_, fun info hinfo => ?_, fun info state type htype => ?_, ?_⟩
  · have hmore := hread more
    rw [Nat.zero_add] at hmore
    rw [decodeField_eq hhead, hmore]
    rfl
  · rw [FieldContents.record, FieldBody.structInfo?_place] at hinfo
    obtain ⟨s, -, rfl⟩ := Option.map_eq_some_iff.1 hinfo
    refine ⟨?_, rfl⟩
    rw [StructInfo.script, FieldContents.payload, ← List.length_append, List.take_left,
      List.drop_left]
  · exact FieldBody.defaultsStart_of_place htype
  · intro front hfront hne
    obtain ⟨e, he⟩ := hread.exists_error (framedAt_fieldRecord ctx format index entry _ name)
      hfront hne
    exact ⟨e, by rw [decodeField_eq hhead, he]; rfl⟩

/-- A replicated function that has a state and returns at once. -/
def FieldContents.touch : FieldContents where
  frame := some ⟨0, 0, 0, 0, 0⟩
  properties := [0]
  super := .none
  next := ⟨7⟩
  body := .function ⟨.none, .none, 3, .none, 1, 2, 2, 0, 0⟩ ⟨0, 0, FunctionFlag.net, some 5⟩
  script := [0x04, 0x0B]

/-- The tables of a package that holds a function alone. -/
def Tables.touch : Tables where
  package := "P"
  names := [⟨"None", 0⟩, ⟨"Core", 0⟩, ⟨"Function", 0⟩, ⟨"Touch", 0⟩]
  imports := [⟨1, 1, .none, 2⟩]
  exports := [⟨.ofImport 0, .none, .none, 3, ObjectFlag.hasStack, 0, 0⟩]

/-- A function is read with the place of its script behind its state. -/
theorem decodeField_payload_touch :
    decodeField ⟨.touch, fun _ => .ok [], .windows1252⟩ .extended 0
        (FieldContents.touch.payload .windows1252 ++ [0xFF]) =
      .ok ⟨0, "Touch", .none, ⟨7⟩, .function ⟨.none, .none, 3, .none, 1, 2, 2, 34, 36⟩
        ⟨0, 0, FunctionFlag.net, some 5⟩⟩ ∧
    ∃ e, decodeField ⟨.touch, fun _ => .ok [], .windows1252⟩ .extended 0
      ((FieldContents.touch.payload .windows1252).take 40) = .error e := by
  have hproperties : ∃ scope properties,
      Tables.touch.objectClassFullName (.ofExport 0) = .ok scope ∧
      readProperties ⟨.touch, fun _ => .ok [], .windows1252⟩ scope [0] = .ok (properties, []) :=
    ⟨"Function", [], rfl, rfl⟩
  have hfits : FieldContents.touch.Fits ⟨.touch, fun _ => .ok [], .windows1252⟩ .extended 0
      ⟨.ofImport 0, .none, .none, 3, ObjectFlag.hasStack, 0, 0⟩ :=
    ⟨rfl, hproperties, ⟨_, rfl⟩, rfl⟩
  have hname : Tables.touch.name 3 = .ok "Touch" := rfl
  obtain ⟨hread, -, -, hshort⟩ := decodeField_payload rfl rfl hname hfits
  exact ⟨hread [0xFF], hshort _ (List.take_prefix _ _) (by decide)⟩

end UnrealPackage
