import UnrealPackage.Json.Basic
import UnrealPackage.Text.Utf16
/-!
# Reading JSON

The grammar of JSON with nothing added: four kinds of blank, numbers without leading zeros, strings
without raw control characters. `Json.parse?` reads one value with blanks around it.

Strings are read as UTF-16 units, because an escape stands for a unit. A string with half of a
surrogate pair is `Json.illFormed`.
-/

namespace UnrealPackage.Json

/-- Whether a character may stand between tokens. -/
def isBlank (c : Char) : Bool :=
  c = ' ' || c = '\n' || c = '\t' || c = '\r'

/-- The characters after the blanks at the beginning. -/
def skipBlank (cs : List Char) : List Char :=
  cs.dropWhile isBlank

/-! ## Numbers -/

/-- Digits, at least one. -/
def digits? (cs : List Char) : Option (List Char × List Char) :=
  let ds := cs.takeWhile Char.isDigit
  if ds.isEmpty then none else some (ds, cs.dropWhile Char.isDigit)

/-- A point with digits behind it, or nothing. -/
def fraction? : List Char → Option (List Char × List Char)
  | '.' :: cs => do
    let (ds, rest) ← digits? cs
    pure ('.' :: ds, rest)
  | cs => some ([], cs)

/-- A power of ten, or nothing. -/
def exponent? : List Char → Option (List Char × List Char)
  | 'e' :: cs => signed 'e' cs
  | 'E' :: cs => signed 'E' cs
  | cs => some ([], cs)
where
  signed (mark : Char) : List Char → Option (List Char × List Char)
    | '+' :: cs => do
      let (ds, rest) ← digits? cs
      pure (mark :: '+' :: ds, rest)
    | '-' :: cs => do
      let (ds, rest) ← digits? cs
      pure (mark :: '-' :: ds, rest)
    | cs => do
      let (ds, rest) ← digits? cs
      pure (mark :: ds, rest)

/-- The digits before the point: a zero alone, or a number without zeros in front. -/
def whole? : List Char → Option (List Char × List Char)
  | '0' :: cs => some (['0'], cs)
  | cs => digits? cs

/-- The literal of a number without its sign. -/
def unsigned? (cs : List Char) : Option (List Char × List Char) := do
  let (a, cs) ← whole? cs
  let (b, cs) ← fraction? cs
  let (c, cs) ← exponent? cs
  pure (a ++ b ++ c, cs)

/-- A number. -/
def number? : List Char → Option (Json × List Char)
  | '-' :: cs => do
    let (l, rest) ← unsigned? cs
    pure (.number (String.ofList ('-' :: l)), rest)
  | cs => do
    let (l, rest) ← unsigned? cs
    pure (.number (String.ofList l), rest)

/-! ## Strings -/

/-- The value of a hexadecimal digit. -/
def hexDigit? (c : Char) : Option Nat :=
  if c.isDigit then some (c.toNat - 48)
  else if 'a' ≤ c ∧ c ≤ 'f' then some (c.toNat - 87)
  else if 'A' ≤ c ∧ c ≤ 'F' then some (c.toNat - 55)
  else none

/-- The unit of four hexadecimal digits. -/
def hexUnit? (a b c d : Char) : Option UInt16 := do
  let a ← hexDigit? a
  let b ← hexDigit? b
  let c ← hexDigit? c
  let d ← hexDigit? d
  pure (((a * 16 + b) * 16 + c) * 16 + d).toUInt16

/-- The character of an escape with a letter. -/
def shortEscape? : Char → Option Char
  | '"' => some '"'
  | '\\' => some '\\'
  | '/' => some '/'
  | 'b' => some '\x08'
  | 'f' => some '\x0c'
  | 'n' => some '\n'
  | 'r' => some '\r'
  | 't' => some '\t'
  | _ => none

/-- The units of a string up to its closing quote. -/
def stringUnits? : List Char → Option (List UInt16 × List Char)
  | [] => none
  | '"' :: rest => some ([], rest)
  | '\\' :: 'u' :: a :: b :: c :: d :: rest => do
    let u ← hexUnit? a b c d
    let (us, rest) ← stringUnits? rest
    pure (u :: us, rest)
  | '\\' :: e :: rest => do
    let c ← shortEscape? e
    let (us, rest) ← stringUnits? rest
    pure (Utf16.encodeChar c ++ us, rest)
  | c :: rest =>
    if c < ' ' then none
    else do
      let (us, rest) ← stringUnits? rest
      pure (Utf16.encodeChar c ++ us, rest)

/-- The text of units, unless a surrogate stands alone. -/
def textOfUnits? (us : List UInt16) : Option String :=
  ((Utf16.decode us).mapM id).map String.ofList

/-! ## Values -/

/-- The elements of an array up to its closing bracket, behind a first one. -/
def moreElements? (value : List Char → Option (Json × List Char)) :
    Nat → List Char → Option (List Json × List Char)
  | 0, _ => none
  | bound + 1, cs => match skipBlank cs with
    | ']' :: rest => some ([], rest)
    | ',' :: rest => do
      let (j, rest) ← value (skipBlank rest)
      let (js, rest) ← moreElements? value bound rest
      pure (j :: js, rest)
    | _ => none

/-- A member of an object; its key is missing if it is ill-formed. -/
def member? (value : List Char → Option (Json × List Char)) :
    List Char → Option ((Option String × Json) × List Char)
  | '"' :: cs => do
    let (us, rest) ← stringUnits? cs
    match skipBlank rest with
    | ':' :: rest => do
      let (j, rest) ← value (skipBlank rest)
      pure ((textOfUnits? us, j), rest)
    | _ => none
  | _ => none

/-- The members of an object up to its closing brace, behind a first one. -/
def moreMembers? (value : List Char → Option (Json × List Char)) :
    Nat → List Char → Option (List (Option String × Json) × List Char)
  | 0, _ => none
  | bound + 1, cs => match skipBlank cs with
    | '\x7d' :: rest => some ([], rest)
    | ',' :: rest => do
      let (m, rest) ← member? value (skipBlank rest)
      let (ms, rest) ← moreMembers? value bound rest
      pure (m :: ms, rest)
    | _ => none

/-- The object of members, unless a key is ill-formed. -/
def objectOf (members : List (Option String × Json)) : Json :=
  match members.mapM fun m => m.1.map fun key => (key, m.2) with
  | some members => .object members
  | none => .illFormed

/-- A value at the beginning of the characters, with at most `levels` arrays and objects inside one
another. -/
def value? : Nat → List Char → Option (Json × List Char)
  | 0, _ => none
  | levels + 1, cs => match cs with
    | 'n' :: 'u' :: 'l' :: 'l' :: rest => some (.null, rest)
    | 't' :: 'r' :: 'u' :: 'e' :: rest => some (.bool true, rest)
    | 'f' :: 'a' :: 'l' :: 's' :: 'e' :: rest => some (.bool false, rest)
    | '"' :: rest => do
      let (us, rest) ← stringUnits? rest
      pure ((textOfUnits? us).elim .illFormed .string, rest)
    | '[' :: rest => match skipBlank rest with
      | ']' :: rest => some (.array [], rest)
      | first => do
        let (j, rest) ← value? levels first
        let (js, rest) ← moreElements? (value? levels) (rest.length + 1) rest
        pure (.array (j :: js), rest)
    | '\x7b' :: rest => match skipBlank rest with
      | '\x7d' :: rest => some (.object [], rest)
      | first => do
        let (m, rest) ← member? (value? levels) first
        let (ms, rest) ← moreMembers? (value? levels) (rest.length + 1) rest
        pure (objectOf (m :: ms), rest)
    | cs => number? cs

/-- The value of a text, with blanks around it. -/
def parse? (text : String) : Option Json := do
  let cs := skipBlank text.toList
  let (j, rest) ← value? (cs.length + 1) cs
  if (skipBlank rest).isEmpty then pure j else none

end UnrealPackage.Json
