import UnrealPackage.Error
import UnrealPackage.Files.Path
/-!
# File trees

The files that a run can see, each with its content. A tree knows its directories, so that a missing
file can be told from a file that stands where a directory is needed.
-/

namespace UnrealPackage

/-- The names that lead from the working directory to a file or directory. Paths from the root of
all directories begin with a slash, paths above the working directory with two dots. -/
abbrev Place := List String

/-- Files and directories. -/
structure FileTree where
  directories : List Place
  files : List (Place × List UInt8)

/-- What stands in a place. -/
inductive FileNode
  | file (content : List UInt8)
  | directory
deriving DecidableEq, Repr

namespace Place

/-- The place above. -/
def parent (p : Place) : Place :=
  match p.getLast? with
  | none => [".."]
  | some "/" => ["/"]
  | some ".." => p ++ [".."]
  | some _ => p.dropLast

/-- All places on the way to a place, without itself. -/
def above (p : Place) : List Place :=
  (List.range p.length).map p.take

/-- The place that one part of a path leads to. -/
def step (p : Place) (part : String) : Place :=
  if part = "" ∨ part = "." then p
  else if part = ".." then p.parent
  else p ++ [part]

/-- Where a path begins. -/
def start (path : String) : Place :=
  if isAbsolute path then ["/"] else []

/-- The place that a path leads to, whether anything is there or not. -/
def ofPath (path : String) : Place :=
  (pathParts path).foldl step (start path)

end Place

namespace FileTree

/-- The tree that holds nothing but the working directory. -/
def empty : FileTree := ⟨[[]], []⟩

/-- The tree with a file added, and the directories that lead to it. -/
def insert (t : FileTree) (p : Place) (content : List UInt8) : FileTree :=
  ⟨t.directories ++ p.above, t.files.filter (·.1 != p) ++ [(p, content)]⟩

/-- The tree with a directory added. -/
def addDirectory (t : FileTree) (p : Place) : FileTree :=
  { t with directories := t.directories ++ [p] }

/-- What stands in a place. -/
def node? (t : FileTree) (p : Place) : Option FileNode :=
  if t.directories.contains p then some .directory
  else (t.files.lookup p).map .file

/-- The place that parts of a path lead to from `current` on. All but the last have to be
directories. -/
def walk (t : FileTree) : Place → List String → Except FileError Place
  | current, [] => pure current
  | current, part :: rest =>
    match t.node? current with
    | none => throw .notFound
    | some (.file _) => throw .notDirectory
    | some .directory => walk t (current.step part) rest

/-- The place that a path leads to. -/
def find (t : FileTree) (path : String) : Except FileError Place :=
  if path.isEmpty then throw .notFound else t.walk (.start path) (pathParts path)

/-- The file that a path leads to, if there is one. -/
def file? (t : FileTree) (path : String) : Option (Place × List UInt8) :=
  match t.find path with
  | .error _ => none
  | .ok place => (t.files.lookup place).map (place, ·)

/-- The content of a file. -/
def read (t : FileTree) (path : String) : Except FileError (List UInt8) := do
  match t.node? (← t.find path) with
  | none => throw .notFound
  | some .directory => throw .isDirectory
  | some (.file content) => pure content

/-- The names and contents of the files directly below a directory. -/
def list (t : FileTree) (path : String) : Except FileError (List (String × List UInt8)) := do
  let place ← t.find path
  match t.node? place with
  | none => throw .notFound
  | some (.file _) => throw .notDirectory
  | some .directory =>
    pure (t.files.filterMap fun (p, content) =>
      match p.getLast? with
      | some name => if p.dropLast = place then some (name, content) else none
      | none => none)

/-- The place in which a file of this path may be written. -/
def writable (t : FileTree) (path : String) : Except FileError Place := do
  let place ← t.find path
  match t.node? place with
  | some .directory => throw .isDirectory
  | _ => pure place

end FileTree

end UnrealPackage
