import UnrealPackage.Files.Tree
import UnrealPackage.Package.Basic
/-!
# Where packages come from

Script packages are asked for by name. They may be held in memory or lie as files in a directory;
either way a name is matched without regard to case, and a package keeps the name it was stored
under.
-/

namespace UnrealPackage

/-- Packages that can be asked for by name. -/
structure PackageSource where
  /-- The package of a name, if there is one. -/
  find : String → Except Error (Option Package)
  /-- The number of exports in all packages together. No chain of definitions in which each needs
  the next is longer, unless it never ends. -/
  exportCount : Nat

/-- The number of exports in those packages that could be read. -/
def countExports (packages : List (Except Error Package)) : Nat :=
  packages.foldl (fun n found => match found with
    | .ok p => n + p.tables.exports.length
    | .error _ => n) 0

/-- Images in memory under their names in lower case, each with the name it was stored under. -/
structure ImageShelf where
  images : List (String × String × List UInt8)

namespace ImageShelf

/-- The shelf that holds nothing. -/
def empty : ImageShelf := ⟨[]⟩

/-- The shelf with an image in place of the one of that name. -/
def insert (s : ImageShelf) (name : String) (image : List UInt8) : ImageShelf :=
  let key := foldCase name
  ⟨s.images.filter (·.1 != key) ++ [(key, name, image)]⟩

/-- The packages of a shelf. -/
def source (s : ImageShelf) (options : PackageOptions) : PackageSource :=
  let loaded := s.images.map fun (key, name, image) => (key, Package.load name options image)
  { find := fun name =>
      match loaded.lookup (foldCase name) with
      | some found => some <$> found
      | none => pure none
    exportCount := countExports (loaded.map Prod.snd) }

end ImageShelf

namespace FileTree

/-- The package in a file. -/
def openPackage (t : FileTree) (options : PackageOptions) (path : String) :
    Except Error Package :=
  match t.read path with
  | .ok image => Package.load (packageNameOfPath path) options image
  | .error cause => throw (.file cause)

/-- The place of the file in a directory that holds a package: the file of just this name, else one
whose name differs in case only. -/
def findPackage (t : FileTree) (directory wanted : String) : Except Error (Option Place) :=
  match t.file? (joinPath directory wanted) with
  | some (place, _) => pure (some place)
  | none =>
    match t.list directory with
    | .error cause => throw (.file cause)
    | .ok files =>
      match files.find? fun (name, _) => sameName name wanted with
      | some (name, _) => pure ((t.file? (joinPath directory name)).map Prod.fst)
      | none => pure none

/-- The packages in a directory, in files named after them with an extension. -/
def source (t : FileTree) (directory extension : String) (options : PackageOptions) :
    PackageSource :=
  let loaded := t.files.map fun (place, image) =>
    (place, Package.load (packageNameOfPath (place.getLastD "")) options image)
  { find := fun name => do
      match ← t.findPackage directory (name ++ "." ++ extension) with
      | none => pure none
      | some place =>
        match loaded.lookup place with
        | some found => some <$> found
        | none => pure none
    exportCount := countExports (loaded.map Prod.snd) }

end FileTree

end UnrealPackage
