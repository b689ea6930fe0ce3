import UnrealPackage.Proofs.Library.Memo
import UnrealPackage.Proofs.Library.Reading
/-!
# What a session has found does not show

A session answers out of what it kept, and keeps more with every question. With a sound memo each of
its questions is bounded by what the library gives without any (`Question.within_ask`): first the
fields of structs, by induction on how deep their definitions are read
(`Session.within_fieldsWithin`), where reading deeper than there are exports finds nothing more;
from them the fields that exports are, the native functions, and all that is made of these.

So what a session was asked before does not show in its answers (`Question.answer_memoAfter`).
-/

namespace UnrealPackage

open Script

/-- Without a payload there is no field. -/
theorem Located.payload_bind_decode (x : Located) (schema : SchemaResolver) :
    (x.payload >>= fun _ => x.decode schema) = x.decode schema := by
  rw [decode]
  cases x.payload with
  | error e => rw [except_error_bind, except_error_bind]
  | ok data => rw [except_ok_bind]

/-- The payload is there if its properties can be read, so it need not be read first. -/
theorem Located.payload_bind_properties (x : Located) (schema : SchemaResolver) (scope : String)
    (start : Nat) : (x.payload >>= fun _ => x.properties schema scope start) =
      x.properties schema scope start := by
  rw [properties]
  cases x.payload with
  | error e => rw [except_error_bind, except_error_bind]
  | ok data => rw [except_ok_bind]

/-- The statements of a script, with the native functions of the library if one is called. -/
def Library.statements (l : Library) (x : Located) (info : StructInfo) :
    Except Error (List Script.Expr) :=
  match x.statements .none info with
  | .error (.unknownNative _) => do
    let functions ← l.nativeScan
    x.statements (.ofList functions .stock) info
  | found => found

namespace Session

variable {α : Type} {l : Library} {x : Located}

/-! ## Answers that may be given up -/

theorem circular_unlessCircular {answer : Except Error α} (h : Circular answer) :
    Circular (unlessCircular answer) := by
  obtain ⟨name, rfl⟩ := h
  exact ⟨name, rfl⟩

theorem below_unlessCircular {low high : Except Error α} (h : Below low high) :
    Below (unlessCircular low) (unlessCircular high) := by
  intro hlow
  rw [h fun hcircular => hlow (circular_unlessCircular hcircular)]

theorem toOption_of_circular {answer : Except Error α} (h : Circular answer) :
    answer.toOption = none := by
  obtain ⟨name, rfl⟩ := h
  rfl

section

variable (hcount : l.source.Counted) (hnames : l.source.ByName)

include hcount hnames

/-! ## Fields -/

/-- A record is read with the memory between what is known of its fields and what there is to know.
-/
theorem within_record {ask : String → Session (List FieldTemplate)} {low : SchemaResolver}
    (hask : ∀ name, Within (Memo.Sound l) (ask name) (low name) (l.fields name))
    (hlow : ∀ name, Below (low name) (l.fields name)) (hx : l.Found x) :
    Within (Memo.Sound l) (record ask x) (x.decode low) (l.recordAt x) := by
  have hsettled : Below (x.decode l.fields) (l.recordAt x) :=
    Library.settled_exportCount hcount x hx
  refine .remembered ?_ ((x.decode_below hlow).trans hsettled) (fun memo r hmemo hlookup => ?_)
    fun memo r hmemo hr => { hmemo with records := fun key r' hmem y hy hkey => ?_ }
  · have hread : Within (Memo.Sound l) (do
        let data ← liftM x.payload
        let _ ← attempt (naming x.package.tables
          (Remembering.objectClassFullName x.package.tables (.ofExport x.index)))
        reading ask (fun schema => x.decode schema) (data.length + 1) [] : Session FieldRecord)
        (x.payload >>= fun _ => x.decode low) (x.payload >>= fun _ => x.decode l.fields) := by
      refine Within.bind (.lift (.refl x.payload)) fun data hdata => ?_
      refine (within_naming (Remembering.agrees_objectClassFullName _ _)).bind_attempt
        fun _ _ _ => ?_
      exact within_reading hask (Located.consults_decode hdata) (Nat.le_succ _) hlow
    rw [x.payload_bind_decode, x.payload_bind_decode] at hread
    exact hread.mono (.refl _) hsettled
  · exact hmemo.records _ r (mem_of_lookup hlookup) x hx rfl
  · rcases List.mem_cons.1 hmem with hnew | hmem
    · cases hnew
      rw [Library.eq_of_key hnames hy hx hkey]
      exact hr
    · exact hmemo.records key r' hmem y hy hkey

omit hcount in
/-- Fields that are put into memory lie within the same bounds. -/
theorem within_keeping {fullName : String} {found : Session (List FieldTemplate)}
    {low : Except Error (List FieldTemplate)}
    (h : Within (Memo.Sound l) found low (l.fields fullName))
    (hlow : Below low (l.fields fullName)) :
    Within (Memo.Sound l) (fieldsWithin.keeping fullName found) low (l.fields fullName) := by
  refine h.remembered hlow (fun memo ts hmemo hlookup => ?_)
    fun memo ts hmemo hts => { hmemo with structs := fun key ts' hmem name hkey => ?_ }
  · exact hmemo.structs _ ts (mem_of_lookup hlookup) fullName rfl
  · rcases List.mem_cons.1 hmem with hnew | hmem
    · cases hnew
      exact Library.fields_congr hnames hkey.symm hts
    · exact hmemo.structs key ts' hmem name hkey

/-- Fields are found with the memory between what so many levels give and what there is. -/
theorem within_fieldsWithin (depth : Nat) (fullName : String) :
    Within (Memo.Sound l) (fieldsWithin l depth fullName) (l.fieldsWithin depth fullName)
      (l.fields fullName) := by
  have hbelow := Library.fieldsWithin_below_fields (l := l) hcount
  induction depth generalizing fullName with
  | zero =>
    exact within_keeping hnames
      ((Within.raise _).mono (.refl _) (Circular.below ⟨fullName, rfl⟩ _)) (hbelow 0 fullName)
  | succ depth ih =>
    have hasks := asks_access hnames fun x hx => within_record hcount hnames ih (hbelow depth) hx
    exact within_keeping hnames (hasks.flatten _ fullName) (hbelow (depth + 1) fullName)

theorem within_fields (fullName : String) :
    Within (Memo.Sound l) (fields l fullName) (l.fields fullName) (l.fields fullName) :=
  within_fieldsWithin hcount hnames _ fullName

theorem within_recordAt (hx : l.Found x) :
    Within (Memo.Sound l) (recordAt l x) (l.recordAt x) (l.recordAt x) :=
  within_record hcount hnames (within_fieldsWithin hcount hnames _)
    (Library.fieldsWithin_below_fields hcount _) hx

theorem asks_recordAt : Asks l (Memo.Sound l) (access l (recordAt l)) l.recordAt l.recordAt :=
  asks_access hnames fun _ hx => within_recordAt hcount hnames hx

/-- The properties of an export are read with the memory as without it. -/
theorem within_properties (x : Located) (scope : String) (start : Nat) :
    Within (Memo.Sound l) (properties l x scope start) (x.properties l.fields scope start)
      (x.properties l.fields scope start) := by
  have hread : Within (Memo.Sound l) (properties l x scope start)
      (x.payload >>= fun _ => x.properties l.fields scope start)
      (x.payload >>= fun _ => x.properties l.fields scope start) := by
    refine Within.bind (.lift (.refl x.payload)) fun data hdata => ?_
    exact within_reading (within_fields hcount hnames)
      (Located.consults_properties hdata scope start) (Nat.le_succ _) fun _ => .refl _
  rwa [x.payload_bind_properties] at hread

/-! ## Native functions -/

theorem within_record? (hx : l.Found x) :
    Within (Memo.Sound l) (record? l x) (unlessCircular (l.recordAt x))
      (unlessCircular (l.recordAt x)) :=
  (within_recordAt hcount hnames hx).bind_attempt fun _ hbelow habove =>
    (Within.lift (.refl _)).mono (below_unlessCircular hbelow) (below_unlessCircular habove)

omit hcount in
/-- Whether there is a package is told with the memory as without it. -/
theorem within_package? (name : String) :
    Within (Memo.Sound l) (package? l name) (.ok (l.package name).toOption)
      (.ok (l.package name).toOption) := by
  rw [package?, map_eq_pure_bind]
  refine (within_package hnames name).bind_attempt fun found hbelow habove => ?_
  have hsame : found.toOption = (l.package name).toOption := by
    by_cases hcircular : Circular (l.package name)
    · rw [toOption_of_circular hcircular, toOption_of_circular (habove.circular hcircular)]
    · rw [hbelow hcircular]
  rw [hsame]
  exact .pure _

/-- The native functions of the library are gathered with the memory as without it. -/
theorem within_nativeFunctions :
    Within (Memo.Sound l) (nativeFunctions l) l.nativeScan l.nativeScan := by
  refine .remembered ?_ (.refl _) (fun _ functions hmemo hknown => hmemo.natives functions hknown)
    fun memo functions hmemo hfound => { hmemo with natives := fun functions' hknown => ?_ }
  · exact within_nativesOf l.nativePackages (fun _ hx => within_record? hcount hnames hx)
      (within_package? hnames)
  · cases hknown
    exact hfound

/-- The statements of a script are read with the memory as without it. -/
theorem within_statements (x : Located) (info : StructInfo) :
    Within (Memo.Sound l) (statements l x info) (l.statements x info) (l.statements x info) := by
  by_cases hcalled : ∃ index, x.statements .none info = .error (.unknownNative index)
  · obtain ⟨index, hfound⟩ := hcalled
    rw [statements, Library.statements, hfound]
    exact (within_nativeFunctions hcount hnames).bind fun functions _ => .lift (.refl _)
  · have hsession : statements l x info = liftM (x.statements .none info) := by
      rw [statements]
      split
      · next index hfound => exact absurd ⟨index, hfound⟩ hcalled
      · rfl
    have hlibrary : l.statements x info = x.statements .none info := by
      rw [Library.statements]
      split
      · next index hfound => exact absurd ⟨index, hfound⟩ hcalled
      · rfl
    rw [hsession, hlibrary]
    exact .lift (.refl _)

end

end Session

/-! ## Questions -/

/-- What a session is asked. -/
inductive Question
  | field (fullName : String)
  | fields (fullName : String)
  | superClass (fullName : String)
  | isSubclass (name ancestor : String)
  | classDefaults (fullName : String)
  | disassemble (fullName : String)
  | native (index : Nat)

/-- What a session answers. -/
inductive Answer
  | field (record : FieldRecord)
  | fields (templates : List FieldTemplate)
  | superClass (fullName? : Option String)
  | isSubclass (derived : Bool)
  | classDefaults (properties : List Property)
  | disassemble (lines : List String)
  | native (function : NativeFunction)

namespace Question

/-- Asks a session. -/
def ask (l : Library) : Question → Session Answer
  | field fullName => .field <$> Session.field l fullName
  | fields fullName => .fields <$> Session.fields l fullName
  | superClass fullName => .superClass <$> Session.superClass l fullName
  | isSubclass name ancestor => .isSubclass <$> Session.isSubclass l name ancestor
  | classDefaults fullName => .classDefaults <$> Session.classDefaults l fullName
  | disassemble fullName => .disassemble <$> Session.disassemble l fullName
  | native index => .native <$> Session.native l index

/-- The answer that no session has to find. -/
def answer (l : Library) : Question → Except Error Answer
  | field fullName => .field <$> l.field fullName
  | fields fullName => .fields <$> l.fields fullName
  | superClass fullName => .superClass <$> l.superClass fullName
  | isSubclass name ancestor => .isSubclass <$> l.isSubclass name ancestor
  | classDefaults fullName => .classDefaults <$> l.classDefaults fullName
  | disassemble fullName =>
    .disassemble <$> (l.access l.recordAt).disassemble l.statements fullName
  | native index => .native <$> (do
    let functions ← l.nativeScan
    NativeTable.ofList functions .stock index)

variable {l : Library}

/-- Each question keeps the memory sound, and is answered from a sound one as without any. -/
theorem within_ask (hcount : l.source.Counted) (hnames : l.source.ByName) (q : Question) :
    Session.Within (Memo.Sound l) (q.ask l) (q.answer l) (q.answer l) := by
  have hasks := Session.asks_recordAt hcount hnames
  cases q with
  | field fullName => exact (hasks.field fullName).map _
  | fields fullName => exact (Session.within_fields hcount hnames fullName).map _
  | superClass fullName => exact (hasks.superClass fullName).map _
  | isSubclass name ancestor => exact (hasks.descends name ancestor _ name).map _
  | classDefaults fullName =>
    exact (hasks.classDefaults (Session.within_properties hcount hnames) fullName).map _
  | disassemble fullName =>
    exact (hasks.disassemble (Session.within_statements hcount hnames) fullName).map _
  | native index =>
    exact ((Session.within_nativeFunctions hcount hnames).bind fun functions _ =>
      .lift (.refl _)).map _

/-- The memo of a session that was asked some questions, one after the other. -/
def memoAfter (l : Library) (asked : List Question) : Memo :=
  asked.foldl (fun memo q => (q.ask l).after memo) .empty

/-- Whatever was asked before, the memory is sound. -/
theorem sound_memoAfter (hcount : l.source.Counted) (hnames : l.source.ByName)
    (asked : List Question) : (memoAfter l asked).Sound l := by
  have hkept : ∀ memo : Memo, memo.Sound l →
      (asked.foldl (fun memo q => (q.ask l).after memo) memo).Sound l := by
    induction asked with
    | nil => exact fun _ hmemo => hmemo
    | cons q asked ih => exact fun memo hmemo => ih _ (within_ask hcount hnames q memo hmemo).1
  exact hkept _ (Memo.sound_empty l)

/-- What a session was asked before does not show in an answer: over images in memory, and after any
questions, a question is answered as a session that begins answers it, with the same value or the
same error. A question that one of the two gives up, because a definition needs itself, is given up
by the other one as well. -/
theorem answer_memoAfter (h : l.InMemory) (asked : List Question) (q : Question) :
    (Circular ((q.ask l).answer (memoAfter l asked)) ↔ Circular ((q.ask l).answer .empty)) ∧
      (¬Circular ((q.ask l).answer .empty) →
        (q.ask l).answer (memoAfter l asked) = (q.ask l).answer .empty) := by
  have hsound := sound_memoAfter h.counted h.byName asked
  obtain ⟨-, hlater, hlater'⟩ := within_ask h.counted h.byName q _ hsound
  obtain ⟨-, hfresh, hfresh'⟩ := within_ask h.counted h.byName q _ (Memo.sound_empty l)
  have hbelow := hfresh'.trans hlater
  exact ⟨⟨hbelow.circular, (hlater'.trans hfresh).circular⟩, fun h => (hbelow h).symm⟩

/-- The tables of a package with a class that has a number. -/
def sizedTables : Tables where
  package := "P"
  names := [⟨"None", 0⟩, ⟨"Thing", 0⟩, ⟨"Size", 0⟩, ⟨"Core", 0⟩, ⟨"Class", 0⟩, ⟨"IntProperty", 0⟩]
  imports := [⟨3, 4, .none, 5⟩]
  exports := [⟨.none, .none, .none, 1, 0, 65, 161⟩,
    ⟨.ofImport 0, .none, .ofExport 0, 2, 0, 12, 226⟩]

/-- The image of that package. -/
def sizedImage : List UInt8 :=
  Header.encode ⟨0x44, 0, 1, ⟨6, 56⟩, ⟨2, 132⟩, ⟨1, 125⟩, ⟨0, 0, 0, 0⟩, []⟩ ++
    Encode.nameTable .windows1252 sizedTables.names ++ Encode.importTable sizedTables.imports ++
    Encode.exportTable sizedTables.exports ++ [0, 0, 0, 2] ++ List.replicate 61 0 ++
    [0, 0, 0, 1, 0, 4, 0, 0, 0, 0, 0, 0]

/-- A library with this package alone. -/
def sizedLibrary : Library :=
  ⟨(ImageShelf.ofList [("P", sizedImage)]).source {}, ["P"]⟩

/-- The fields of the class are the same after its field was read, after a class was asked for that
is not there, and after the native functions were looked for. -/
theorem answer_memoAfter_sized :
    ¬Circular (((fields "P.Thing").ask sizedLibrary).answer .empty) ∧
    ((fields "P.Thing").ask sizedLibrary).answer (memoAfter sizedLibrary
      [field "p.thing.SIZE", superClass "P.Other", native 7, fields "p.THING"]) =
      .ok (.fields [⟨"Size", .int, 1⟩]) := by
  have hfields : (Session.fields sizedLibrary "P.Thing").answer .empty =
      .ok [⟨"Size", .int, 1⟩] := by
    decide +kernel
  have hfresh : ((fields "P.Thing").ask sizedLibrary).answer .empty =
      .ok (.fields [⟨"Size", .int, 1⟩]) := by
    rw [ask, Session.answer_map, hfields]
    rfl
  have hcircular : ¬Circular (((fields "P.Thing").ask sizedLibrary).answer .empty) := by
    rw [hfresh]
    exact not_circular_ok
  have hmemory : sizedLibrary.InMemory := ⟨_, _, rfl⟩
  obtain ⟨-, hsame⟩ := answer_memoAfter hmemory
    [field "p.thing.SIZE", superClass "P.Other", native 7, fields "p.THING"] (fields "P.Thing")
  exact ⟨hcircular, (hsame hcircular).trans hfresh⟩

end Question

end UnrealPackage
