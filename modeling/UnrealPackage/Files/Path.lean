import UnrealPackage.Text.Dotted
/-!
# Paths

A path is read as its parts between slashes. Empty parts and single dots add nothing, two dots lead
back to the directory above.
-/

namespace UnrealPackage

/-- The parts of a path between slashes. -/
def pathParts (path : String) : List String :=
  (splitOnChar '/' path.toList).map String.ofList

/-- Whether a path begins at the root of all directories. -/
def isAbsolute (path : String) : Bool :=
  path.toList.head? == some '/'

/-- The name of the file or directory that a path ends with; none if it ends with two dots or is
empty. -/
def fileName? (path : String) : Option String :=
  match ((pathParts path).filter fun part => part != "" && part != ".").getLast? with
  | some ".." => none
  | last => last

/-- The name of the package in a file: what stands before the first dot of the file's name. -/
def packageNameOfPath (path : String) : String :=
  match fileName? path with
  | some name => firstSegment name
  | none => ""

/-- The path of a file below a directory. A path from the root of all directories stands for
itself. -/
def joinPath (directory path : String) : String :=
  if isAbsolute path then path else directory ++ "/" ++ path

end UnrealPackage
