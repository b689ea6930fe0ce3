import UnrealPackage.CommandLine.Run
/-!
# The program

Reads what a command needs into a tree of files, runs the command over it, prints what it printed
and writes the file that it wrote.
-/

namespace UnrealPackage.CommandLine

/-- The path that leads to a place. -/
def placePath (p : Place) : String :=
  if p.isEmpty then "." else "/".intercalate p

/-- Adds the directories among those that lead to a place, and the place itself if it is one. -/
def loadDirectories (t : FileTree) (p : Place) : IO FileTree := do
  let here ← IO.currentDir
  let mut t := t
  for q in p.above ++ [p] do
    if ← (here / placePath q).isDir then t := t.addDirectory q
  pure t

/-- Adds a file, if it can be read. -/
def loadFile (t : FileTree) (path : String) : IO FileTree := do
  try
    let content ← IO.FS.readBinFile path
    pure (t.insert (.ofPath path) content.toList)
  catch _ => loadDirectories t (.ofPath path)

/-- Adds the script packages of a directory. -/
def loadPackages (t : FileTree) (directory : String) : IO FileTree := do
  let mut t ← loadDirectories t (.ofPath directory)
  try
    for entry in ← ((← IO.currentDir) / directory).readDir do
      if (foldCase entry.fileName).endsWith ".u" then
        t ← loadFile t (joinPath directory entry.fileName)
  catch _ => pure ()
  pure t

/-- Everything that a command may look at. -/
def loadTree (c : Command) : IO FileTree := do
  let mut t := FileTree.empty
  for path in c.inputs do
    t ← loadFile t path
  if let some directory := c.classpath? then
    t ← loadPackages t directory
  if let some path := c.output? then
    t ← loadDirectories t (.ofPath path)
  pure t

end UnrealPackage.CommandLine

open UnrealPackage CommandLine in
/-- Runs the program. -/
def main (arguments : List String) : IO UInt32 := do
  let command? := (Invocation.ofArguments arguments).toOption.map Invocation.command
  let tree ← match command? with
    | some c => loadTree c
    | none => pure .empty
  let outcome := run tree arguments
  if let some path := command?.bind Command.output? then
    if let .ok data := outcome.files.read path then
      if outcome.ending = .done then IO.FS.writeBinFile path ⟨data.toArray⟩
  (← IO.getStdout).write ⟨outcome.printed.toArray⟩
  match outcome.ending with
  | .failed cause => IO.eprintln ("Error: " ++ cause.message)
  | .refused .usage => IO.eprintln ("\n".intercalate usageLines)
  | _ => pure ()
  pure (UInt32.ofNat outcome.ending.exitCode)
