import UnrealPackage.Text.Digits
/-!
# JSON values and their text

Numbers are kept as they are written, so that integers of any size and the exact digits of a
decimal survive. `Json.compact` prints without any space, `Json.pretty` with one member or element
on a line, indented by two spaces.
-/

namespace UnrealPackage

/-- A JSON value. -/
inductive Json
  | null
  | bool (value : Bool)
  /-- A number by its literal. -/
  | number (literal : String)
  | string (text : String)
  | array (elements : List Json)
  /-- Members in order; a key may occur more than once. -/
  | object (members : List (String × Json))
  /-- A string, or an object with a key, that escapes half of a surrogate pair. It is no value but
  may be skipped where any value may stand. -/
  | illFormed
deriving Repr

instance : Inhabited Json := ⟨.null⟩

namespace Json

/-- An integer. -/
def int (n : Int) : Json := number (toString n)

/-- A natural number. -/
def nat (n : Nat) : Json := number (toString n)

/-- One character of a string literal. -/
def escapeChar (c : Char) : String :=
  if c = '"' then "\\\""
  else if c = '\\' then "\\\\"
  else if c = '\x08' then "\\b"
  else if c = '\x0c' then "\\f"
  else if c = '\n' then "\\n"
  else if c = '\r' then "\\r"
  else if c = '\t' then "\\t"
  else if c < ' ' then "\\u" ++ hexPadded 4 c.toNat
  else c.toString

/-- A string literal. -/
def literal (s : String) : String :=
  "\"" ++ String.join (s.toList.map escapeChar) ++ "\""

mutual

/-- The text without spaces. -/
def compact : Json → String
  | null => "null"
  | bool b => if b then "true" else "false"
  | number l => l
  | string s => literal s
  | array elements => "[" ++ ",".intercalate (compactElements elements) ++ "]"
  | object members => "\x7b" ++ ",".intercalate (compactMembers members) ++ "\x7d"
  | illFormed => "null"

/-- The texts of elements. -/
def compactElements : List Json → List String
  | [] => []
  | j :: js => compact j :: compactElements js

/-- The texts of members. -/
def compactMembers : List (String × Json) → List String
  | [] => []
  | (key, j) :: rest => (literal key ++ ":" ++ compact j) :: compactMembers rest

end

/-- Items on lines of their own between brackets, none of them on the same line. -/
def block (opening closing : String) (indent : Nat) (items : List String) : String :=
  if items.isEmpty then opening ++ closing
  else
    let margin := fun n => "\n" ++ String.ofList (List.replicate (2 * n) ' ')
    opening ++ margin (indent + 1) ++ ("," ++ margin (indent + 1)).intercalate items ++
      margin indent ++ closing

mutual

/-- The text with one item on a line, the value standing `indent` levels deep. -/
def prettyAt (indent : Nat) : Json → String
  | null => "null"
  | bool b => if b then "true" else "false"
  | number l => l
  | string s => literal s
  | array elements => block "[" "]" indent (prettyElements (indent + 1) elements)
  | object members => block "\x7b" "\x7d" indent (prettyMembers (indent + 1) members)
  | illFormed => "null"

/-- The texts of elements. -/
def prettyElements (indent : Nat) : List Json → List String
  | [] => []
  | j :: js => prettyAt indent j :: prettyElements indent js

/-- The texts of members. -/
def prettyMembers (indent : Nat) : List (String × Json) → List String
  | [] => []
  | (key, j) :: rest => (literal key ++ ": " ++ prettyAt indent j) :: prettyMembers indent rest

end

/-- The text with one item on a line. -/
def pretty (j : Json) : String :=
  prettyAt 0 j

mutual

/-- How many arrays and objects stand inside one another. -/
def depth : Json → Nat
  | array elements => depthElements elements + 1
  | object members => depthMembers members + 1
  | _ => 0

/-- The greatest depth of elements. -/
def depthElements : List Json → Nat
  | [] => 0
  | j :: js => max (depth j) (depthElements js)

/-- The greatest depth of members. -/
def depthMembers : List (String × Json) → Nat
  | [] => 0
  | (_, j) :: rest => max (depth j) (depthMembers rest)

end

end Json

end UnrealPackage
