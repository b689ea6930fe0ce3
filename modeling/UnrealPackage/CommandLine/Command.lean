import UnrealPackage.CommandLine.Arguments
import UnrealPackage.Script.Opcode
/-!
# Commands

The program inspects one package or one script in each run. `Invocation.ofArguments` reads the
command with its arguments; the revision of the opcodes may be given before the command or after it.
-/

namespace UnrealPackage

/-- What the program is to do. Inputs, outputs and class paths are paths. -/
inductive Command
  /-- Show the header. -/
  | info (input : String)
  /-- List the name table. -/
  | names (input : String) (json : Bool)
  /-- List the import table. -/
  | imports (input : String) (json : Bool)
  /-- List the export table. -/
  | exports (input : String) (json : Bool)
  /-- Write the payload of an export into a file, or show it, in hexadecimal if wanted. -/
  | extract (input name : String) (output : Option String) (hex : Bool)
  /-- Show the property list of an export, with classes from a directory. -/
  | props (input name classpath : String)
  /-- Show the script of a function, state or class from a directory. -/
  | disasm (name classpath : String)
deriving DecidableEq, Repr

namespace Command

/-- The files that the command reads. -/
def inputs : Command → List String
  | info input | names input _ | imports input _ | exports input _ | extract input .. => [input]
  | props input .. => [input]
  | disasm .. => []

/-- The directory that the command takes script packages from. -/
def classpath? : Command → Option String
  | props _ _ classpath | disasm _ classpath => some classpath
  | _ => none

/-- The file that the command writes. -/
def output? : Command → Option String
  | extract _ _ output _ => output
  | _ => none

end Command

/-- A command with the revision of the opcodes. -/
structure Invocation where
  format : Script.ScriptFormat
  command : Command
deriving DecidableEq, Repr

namespace CommandLine

/-- The option for the revision of the opcodes, which every command knows. -/
def formatOption : OptionSpec where
  long := "script-format"
  accepts word := (Script.ScriptFormat.ofName word).isOk

/-- The switch for output as JSON. -/
def jsonSwitch : OptionSpec := { long := "json", takesValue := false }

/-- The switch for output in hexadecimal. -/
def hexSwitch : OptionSpec := { long := "hex", takesValue := false }

/-- The option for the file that is written. -/
def outputOption : OptionSpec := { long := "output", short := some 'o' }

/-- The option for the directory of the script packages. -/
def classpathOption : OptionSpec := { long := "classpath", short := some 'c' }

/-- What the commands accept besides the option for the revision. -/
def grammars : List (String × Grammar) := [
  ("info", ⟨[], [false]⟩),
  ("names", ⟨[jsonSwitch], [false]⟩),
  ("imports", ⟨[jsonSwitch], [false]⟩),
  ("exports", ⟨[jsonSwitch], [false]⟩),
  ("extract", ⟨[outputOption, hexSwitch], [false, true]⟩),
  ("props", ⟨[classpathOption], [false, true]⟩),
  ("disasm", ⟨[classpathOption], [true]⟩)]

/-- The command of a name with its arguments. -/
def command? (name : String) (a : Arguments) : Option Command :=
  match name, a.operands with
  | "info", [input] => some (.info input)
  | "names", [input] => some (.names input (a.isSet "json"))
  | "imports", [input] => some (.imports input (a.isSet "json"))
  | "exports", [input] => some (.exports input (a.isSet "json"))
  | "extract", [input, name] => some (.extract input name (a.option? "output") (a.isSet "hex"))
  | "props", [input, name] => (a.option? "classpath").map (.props input name)
  | "disasm", [name] => (a.option? "classpath").map (.disasm name)
  | _, _ => none

/-- The revision that arguments ask for, or else `default`. -/
def formatOf (a : Arguments) (default : Script.ScriptFormat) :
    Except Refusal Script.ScriptFormat :=
  match a.option? formatOption.long with
  | none => pure default
  | some word => match Script.ScriptFormat.ofName word with
    | .ok format => pure format
    | .error _ => throw .usage

/-- The options before the command, the name of the command, and the arguments after it. -/
def readLeading : Option OptionSpec → Arguments → List String →
    Except Refusal (Arguments × String × List String)
  | _, _, [] => throw .usage
  | some spec, a, value :: rest => do
    if Grammar.isValue value then readLeading none (← a.addOption spec value) rest
    else throw .usage
  | none, a, argument :: rest => do
    match Token.ofArgument argument with
    | .operand => pure (a, argument, rest)
    | .endOfOptions => throw .usage
    | .long "help" none | .short 'h' _ => throw .help
    | .long "version" none | .short 'V' _ => throw .version
    | .long name attached =>
      let spec ← Grammar.find ⟨[formatOption], []⟩ (·.long = name) attached
      let (a, pending) ← Grammar.takeOption a spec attached
      readLeading pending a rest
    | .short .. => throw .usage

/-- Whether `help` can be asked for with these arguments. -/
def isHelpTopic : List String → Bool
  | [] => true
  | [name] => name = "help" || (grammars.lookup name).isSome
  | _ => false

end CommandLine

open CommandLine in
/-- The command that arguments ask for. -/
def Invocation.ofArguments (arguments : List String) : Except Refusal Invocation := do
  let (leading, name, rest) ← readLeading none .none arguments
  let format ← formatOf leading .extended
  if name = "help" then throw (if isHelpTopic rest then .help else .usage)
  match grammars.lookup name with
  | none => throw .usage
  | some g =>
    let a ← Grammar.read { g with options := formatOption :: g.options } none .none rest
    let format ← formatOf a format
    match command? name a with
    | some command => pure { format, command }
    | none => throw .usage

end UnrealPackage
