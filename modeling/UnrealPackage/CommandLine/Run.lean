import UnrealPackage.CommandLine.Command
import UnrealPackage.CommandLine.Listing
import UnrealPackage.Library.Queries
import UnrealPackage.Property.Json
/-!
# Running a command

A run sees the files of a tree and leaves an `Outcome` behind: what it prints, the tree with the
file it wrote, and why it failed if it did. A run that fails prints nothing.
-/

namespace UnrealPackage

/-- Why a command fails. -/
inductive Failure
  /-- A package cannot be read or does not hold what is asked for. -/
  | package (cause : Error)
  /-- The output cannot be written. -/
  | output (cause : FileError)
  /-- A package has no export of a name. -/
  | noExport (name owner : String)
deriving DecidableEq, Repr

/-- The wording of a failure. -/
def Failure.message : Failure → String
  | .package cause => cause.message
  | .output cause => cause.message
  | .noExport name owner => "no export named '" ++ name ++ "' in " ++ owner

/-- How a run ends. -/
inductive Ending
  | done
  | failed (cause : Failure)
  | refused (cause : Refusal)
deriving DecidableEq, Repr

/-- The exit code of a run. -/
def Ending.exitCode : Ending → Nat
  | done => 0
  | failed _ => 1
  | refused .usage => 2
  | refused _ => 0

/-- What a run leaves behind. -/
structure Outcome where
  printed : List UInt8
  ending : Ending
  files : FileTree

namespace CommandLine

/-- The bytes of lines of text. -/
def textLines (lines : List String) : List UInt8 :=
  Utf8.encode (lines.flatMap fun line => line.toList ++ ['\n'])

/-- The bytes of a JSON value on lines of text. -/
def jsonLines (j : Json) : List UInt8 :=
  textLines [j.pretty]

/-- The name and version of the program. -/
def versionLine : String := "upkg 0.3.0"

/-- How the program is used. -/
def usageLines : List String := [
  "Inspect Unreal Engine 2 packages",
  "",
  "Usage: upkg [--script-format FORMAT] COMMAND",
  "",
  "Commands:",
  "  info INPUT                                 Show header fields, GUID and generations",
  "  names INPUT [--json]                       List the name table",
  "  imports INPUT [--json]                     List the import table with full names",
  "  exports INPUT [--json]                     List the export table with full names",
  "  extract INPUT EXPORT [-o OUTPUT] [--hex]   Write the raw payload of one export",
  "  props INPUT EXPORT -c CLASSPATH            Decode the property list of an export",
  "  disasm FUNCTION -c CLASSPATH               Render the script of a function, state or class"]

/-- A run of a command: bytes to print and the tree afterwards, or the reason why it failed. -/
abbrev Run := Except Failure (List UInt8 × FileTree)

/-- A result whose failure lies in a package. -/
def orFail (r : Except Error α) : Except Failure α :=
  r.mapError Failure.package

/-- The index and the payload of an export by its name. -/
def findPayload (p : Package) (name : String) : Except Failure (Nat × List UInt8) := do
  match p.tables.findExport? name with
  | none => throw (.noExport name p.tables.package)
  | some index =>
    let data ← orFail (p.exportData index)
    pure (index, data)

/-- The library of script packages in a directory. -/
def library (t : FileTree) (classpath : String) (options : PackageOptions) : Library :=
  { source := t.source classpath "u" options }

/-- The property list of an export from its payload, with classes from a library. -/
def exportProperties (l : Library) (p : Package) (index : Nat) (data : List UInt8) :
    Except Error (List Property) := do
  let e ← p.tables.exportAt index
  let read : Decode (List Property) := do
    if hasFlag e.flags ObjectFlag.hasStack then Decode.stateFrame
    let scope ← liftM (p.tables.objectClassFullName (.ofExport index))
    readProperties ⟨p.tables, l.fields, p.options.charset⟩ scope
  let (properties, _) ← read data
  pure properties

/-- Writes bytes into a file. -/
def writeFile (t : FileTree) (path : String) (data : List UInt8) : Except Failure FileTree :=
  match t.writable path with
  | .ok place => pure (t.insert place data)
  | .error cause => throw (.output cause)

/-- Runs a command. -/
def runCommand (t : FileTree) (options : PackageOptions) : Command → Run
  | .info input => do
    let p ← orFail (t.openPackage options input)
    pure (textLines (Listing.info input p), t)
  | .names input json => do
    let p ← orFail (t.openPackage options input)
    pure (if json then jsonLines (Listing.namesJson p.tables)
      else textLines (Listing.names p.tables), t)
  | .imports input json => do
    let p ← orFail (t.openPackage options input)
    let rows ← orFail (Listing.importRows p.tables)
    pure (if json then jsonLines (Listing.importsJson rows)
      else textLines (Listing.imports rows), t)
  | .exports input json => do
    let p ← orFail (t.openPackage options input)
    let rows ← orFail (Listing.exportRows p.tables)
    pure (if json then jsonLines (Listing.exportsJson rows)
      else textLines (Listing.exports rows), t)
  | .extract input name output hex => do
    let p ← orFail (t.openPackage options input)
    let (_, data) ← findPayload p name
    match output with
    | some path =>
      let written ← writeFile t path data
      pure (textLines [s!"Wrote {data.length} bytes to {path}"], written)
    | none => pure (if hex then textLines (Listing.hexDump data) else data, t)
  | .props input name classpath => do
    let p ← orFail (t.openPackage options input)
    let (index, data) ← findPayload p name
    let properties ← orFail (exportProperties (library t classpath options) p index data)
    pure (jsonLines (propertiesToJson properties), t)
  | .disasm name classpath => do
    let lines ← orFail ((library t classpath options).disassemble name)
    pure (textLines lines, t)

/-- Runs the program with arguments over a tree of files. -/
def run (t : FileTree) (arguments : List String) : Outcome :=
  match Invocation.ofArguments arguments with
  | .error .usage => ⟨[], .refused .usage, t⟩
  | .error .help => ⟨textLines usageLines, .refused .help, t⟩
  | .error .version => ⟨textLines [versionLine], .refused .version, t⟩
  | .ok { format, command } =>
    match runCommand t { format } command with
    | .ok (printed, files) => ⟨printed, .done, files⟩
    | .error cause => ⟨[], .failed cause, t⟩

end CommandLine

end UnrealPackage
