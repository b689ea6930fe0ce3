import UnrealPackage.Json.Parser
import UnrealPackage.Property.Json
import UnrealPackage.Schema.Basic
import UnrealPackage.Script.Native
/-!
# Schemas and native tables in JSON

A schema is an object with a member for each struct, a native table an array of functions. A record
may be written as an object or as an array of its members in order; members with a default may be
left out, unknown ones of an object are skipped, and none may come twice.

The kind of a field tells its own type, so it is read as a whole before it is looked into. That is
why nothing in it may be ill-formed or too large, even where it is skipped, and why only so many
arrays may be nested in one another.
-/

namespace UnrealPackage.Json

/-! ## Members -/

/-- The members of a record with the keys `keys`: from an object by key, from an array by place. A
key that comes twice and an element too many are refused; a missing member is `none`. -/
def record? (keys : List String) : Json → Option (List (Option Json))
  | object members =>
    if keys.all fun key => (members.filter (·.1 == key)).length ≤ 1 then
      some (keys.map fun key => List.lookup key members)
    else none
  | array elements =>
    if elements.length ≤ keys.length then
      some ((elements.map some ++ List.replicate (keys.length - elements.length) none))
    else none
  | _ => none

/-- A text. -/
def text? : Json → Option String
  | string s => some s
  | _ => none

/-- A truth value. -/
def truth? : Json → Option Bool
  | bool b => some b
  | _ => none

/-- An integer from 0 to `greatest`, written without point and exponent. -/
def natUpTo? (greatest : Nat) : Json → Option Nat
  | number l =>
    if l.toList.all Char.isDigit then
      let n := l.toList.foldl (fun n c => n * 10 + (c.toNat - 48)) 0
      if n ≤ greatest then some n else none
    else none
  | _ => none

/-- A member that may be left out. -/
def orDefault (value : α) (read? : Json → Option α) : Option Json → Option α
  | none => some value
  | some j => read? j

/-! ## What may stand in a kind -/

/-- The digits and the power of ten of an unsigned literal. -/
def scientific (l : List Char) : Nat × Int :=
  let whole := l.takeWhile Char.isDigit
  let rest := l.dropWhile Char.isDigit
  let fraction := match rest with
    | '.' :: cs => cs.takeWhile Char.isDigit
    | _ => []
  let power := match rest.dropWhile (fun c => c != 'e' && c != 'E') with
    | _ :: '-' :: ds => -(valueOf ds : Int)
    | _ :: '+' :: ds => valueOf ds
    | _ :: ds => valueOf ds
    | [] => 0
  (valueOf (whole ++ fraction), power - fraction.length)
where
  valueOf (ds : List Char) : Nat := ds.foldl (fun n c => n * 10 + (c.toNat - 48)) 0

/-- Whether a literal stays below the greatest 64-bit floating-point number, rounding included. -/
def isFinite (literal : String) : Bool :=
  let (n, power) := scientific (literal.toList.dropWhile (· == '-'))
  let tooLarge := Nat.pow 2 1024 - Nat.pow 2 970
  if n = 0 then true
  else if 400 < power then false
  else if 0 ≤ power then n * Nat.pow 10 power.toNat < tooLarge
  else
    let places := (-power).toNat
    (toString n).length ≤ places || n < tooLarge * Nat.pow 10 places

mutual

/-- Whether everything in a value is a value itself. -/
def isSound : Json → Bool
  | illFormed => false
  | number l => isFinite l
  | array elements => areSound elements
  | object members => memberValuesAreSound members
  | _ => true

/-- Whether everything in elements is a value. -/
def areSound : List Json → Bool
  | [] => true
  | j :: js => isSound j && areSound js

/-- Whether everything in members is a value. -/
def memberValuesAreSound : List (String × Json) → Bool
  | [] => true
  | (_, j) :: rest => isSound j && memberValuesAreSound rest

end

/-- How many arrays and objects may stand inside one another in a kind. -/
def kindDepthLimit : Nat := 123

/-! ## Kinds and templates -/

/-- The words for kinds, in the order of the numbers that may stand for them in a nested kind. -/
def kindWords : List String :=
  ["Byte", "Int", "Bool", "Float", "Object", "Class", "Name", "Str", "Array", "Struct", "Delegate",
    "Map", "FixedArray", "Pointer"]

/-- The word of a type tag. In a nested kind its number will do. -/
def typeWord? (nested : Bool) : Json → Option String
  | string s => if s ∈ kindWords then some s else none
  | j => if nested then (natUpTo? 13 j).bind (kindWords[·]?) else none

/-- The type tag of a kind and the rest of it. -/
def untag? (nested : Bool) : Json → Option (String × Json)
  | object members =>
    match members.filter (·.1 == "type") with
    | [(_, tag)] => do
      let word ← typeWord? nested tag
      pure (word, .object (members.filter (·.1 != "type")))
    | _ => none
  | array (tag :: rest) => do
    let word ← typeWord? nested tag
    pure (word, .array rest)
  | _ => none

/-- A kind without anything besides its type tag. -/
def simpleKind? (kind : PropertyKind) : Json → Option PropertyKind
  | array (_ :: _) => none
  | _ => some kind

/-- The kind of a value with at most `levels` kinds inside one another. -/
def kindWithin? : Nat → Bool → Json → Option PropertyKind
  | 0, _, _ => none
  | levels + 1, nested, j => do
    let (word, rest) ← untag? nested j
    match word with
    | "Byte" => simpleKind? .byte rest
    | "Int" => simpleKind? .int rest
    | "Bool" => simpleKind? .bool rest
    | "Float" => simpleKind? .float rest
    | "Object" => match ← record? ["class"] rest with
      | [className] => .object <$> orDefault "" text? className
      | _ => none
    | "Class" => simpleKind? .classRef rest
    | "Name" => simpleKind? .name rest
    | "Str" => simpleKind? .str rest
    | "Array" => match ← record? ["inner"] rest with
      | [some inner] => match ← record? ["name", "kind", "array_dim"] inner with
        | [some innerName, some kind, slots] => do
          let innerName ← text? innerName
          let kind ← kindWithin? levels true kind
          let slots ← orDefault 1 (natUpTo? 0xFFFFFFFF) slots
          pure (.array innerName kind (UInt32.ofNat slots))
        | _ => none
      | _ => none
    | "Struct" => match ← record? ["struct_name"] rest with
      | [some structName] => .struct <$> text? structName
      | _ => none
    | "Delegate" => simpleKind? .delegate rest
    | "Map" => simpleKind? .map rest
    | "FixedArray" => simpleKind? .fixedArray rest
    | "Pointer" => simpleKind? .pointer rest
    | _ => none

/-- The kind of a field. -/
def kind? (j : Json) : Option PropertyKind :=
  if j.depth ≤ kindDepthLimit ∧ j.isSound then kindWithin? (kindDepthLimit + 1) false j else none

/-- The description of a field. -/
def template? (j : Json) : Option FieldTemplate := do
  match ← record? ["name", "kind", "array_dim"] j with
  | [some name, some kind, slots] =>
    let name ← text? name
    let kind ← kind? kind
    let slots ← orDefault 1 (natUpTo? 0xFFFFFFFF) slots
    pure { name, kind, arrayDim := UInt32.ofNat slots }
  | _ => none

/-! ## Schemas -/

/-- The name of a super, or none. -/
def super? : Json → Option (Option String)
  | null => some none
  | j => some <$> text? j

/-- The elements of an array. -/
def elements? (read? : Json → Option α) : Json → Option (List α)
  | array elements => elements.mapM read?
  | _ => none

/-- The declaration of a struct. -/
def structSchema? (j : Json) : Option StructSchema := do
  match ← record? ["super", "fields"] j with
  | [super, fields] =>
    let super ← orDefault none super? super
    let fields ← orDefault [] (elements? template?) fields
    pure { super, fields }
  | _ => none

/-- A schema; of two structs whose names differ only in case the later one counts. -/
def schema? : Json → Option Schema
  | object members =>
    members.foldlM (fun s (name, j) => do
      let declared ← structSchema? j
      pure (s.insert name declared)) Schema.empty
  | _ => none

end Json

open Json

/-- The schema of a JSON text. -/
def Schema.ofJson (source : String) : Except Error Schema :=
  match (parse? source).bind schema? with
  | some s => pure s
  | none => throw .malformedSchema

/-- A schema in JSON. -/
def Schema.toJson (s : Schema) : Json :=
  .object (s.structs.map fun (name, declared) => (name, .object [
    ("super", declared.super.elim .null .string),
    ("fields", .array (declared.fields.map FieldTemplate.toJson))]))

namespace Script

/-- A native function. -/
def NativeFunction.ofJson? (j : Json) : Option NativeFunction := do
  match ← record? ["index", "name", "pre_operator", "precedence", "operator"] j with
  | [some index, some name, preOperator, precedence, isOperator] =>
    let index ← natUpTo? 0xFFFFFFFF index
    let name ← text? name
    let preOperator ← orDefault false truth? preOperator
    let precedence ← orDefault 0 (natUpTo? 0xFF) precedence
    let isOperator ← orDefault false truth? isOperator
    pure { index, name, preOperator, precedence := UInt8.ofNat precedence, isOperator }
  | _ => none

/-- The functions of a JSON text; of two with one index the later one counts. -/
def nativesOfJson (source : String) : Except Error (List NativeFunction) :=
  match (parse? source).bind (elements? NativeFunction.ofJson?) with
  | some functions => pure (functions.foldl insertNative [])
  | none => throw .malformedNatives

end Script

end UnrealPackage
