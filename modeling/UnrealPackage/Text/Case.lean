/-!
# Names without regard to case

Names in a package are compared letter by letter with the ASCII letters folded to lower case;
every other character counts as itself.
-/

namespace UnrealPackage

/-- The text with its ASCII capitals in lower case. -/
def foldCase (s : String) : String :=
  String.ofList (s.toList.map Char.toLower)

/-- Whether two names are the same up to the case of ASCII letters. -/
def sameName (a b : String) : Bool :=
  foldCase a == foldCase b

end UnrealPackage
