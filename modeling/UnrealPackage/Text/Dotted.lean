/-!
# Dotted names

A full name is a path of short names joined with dots. `segments` takes it apart, `dotted` joins
it again; a name without a dot is its own only segment.
-/

namespace UnrealPackage

/-- The stretches of `cs` between occurrences of `sep`, at least one. -/
def splitOnChar (sep : Char) : List Char → List (List Char)
  | [] => [[]]
  | c :: cs =>
    if c = sep then [] :: splitOnChar sep cs
    else match splitOnChar sep cs with
      | [] => [[c]]
      | w :: ws => (c :: w) :: ws

/-- The parts of a dotted name, root first. -/
def segments (name : String) : List String :=
  (splitOnChar '.' name.toList).map String.ofList

/-- Parts joined with dots. -/
def dotted (parts : List String) : String :=
  String.ofList (['.'].intercalate (parts.map String.toList))

/-- What stands before the first dot; the whole name if there is none. -/
def firstSegment (name : String) : String :=
  String.ofList (name.toList.takeWhile (· != '.'))

/-- What stands after the last dot; the whole name if there is none. -/
def shortName (name : String) : String :=
  String.ofList (name.toList.reverse.takeWhile (· != '.')).reverse

/-- The name cut at its first dot, if it has one. -/
def splitFirstDot? (name : String) : Option (String × String) :=
  match name.toList.dropWhile (· != '.') with
  | [] => none
  | _ :: rest => some (firstSegment name, String.ofList rest)

end UnrealPackage
