import UnrealPackage.Text.Dotted
/-!
# Arguments of a command

A command takes operands in order, and options. A long option is written `--name value` or
`--name=value`, a short one `-n value`, `-nvalue` or `-n=value`; a switch is an option without a
value. After `--` every argument is an operand. No option may occur twice, an option may refuse a
value, and a value that is an argument of its own must not look like an option.
-/

namespace UnrealPackage

/-- An option that a command knows. -/
structure OptionSpec where
  long : String
  short : Option Char := none
  takesValue : Bool := true
  /-- Whether a text may be the value. -/
  accepts : String → Bool := fun value => !value.isEmpty

/-- Why reading arguments ends without a result. -/
inductive Refusal
  /-- The arguments are no use of the program. -/
  | usage
  /-- The arguments ask how the program is used. -/
  | help
  /-- The arguments ask for the version of the program. -/
  | version
deriving DecidableEq, Repr

/-- The arguments read so far. -/
structure Arguments where
  operands : List String
  /-- Values of options by long names; a switch has an empty one. -/
  options : List (String × String)
deriving DecidableEq, Repr

namespace Arguments

/-- No arguments. -/
def none : Arguments := ⟨[], []⟩

/-- The value of an option. -/
def option? (a : Arguments) (long : String) : Option String :=
  a.options.lookup long

/-- Whether a switch is set. -/
def isSet (a : Arguments) (long : String) : Bool :=
  (a.option? long).isSome

/-- The arguments with an operand added. -/
def addOperand (a : Arguments) (operand : String) : Arguments :=
  { a with operands := a.operands ++ [operand] }

/-- The arguments with an option added. -/
def addOption (a : Arguments) (spec : OptionSpec) (value : String) : Except Refusal Arguments :=
  if a.isSet spec.long then throw .usage
  else if spec.takesValue && !spec.accepts value then throw .usage
  else pure { a with options := a.options ++ [(spec.long, value)] }

end Arguments

/-- How an argument is to be taken. -/
inductive Token
  | operand
  /-- What follows are operands. -/
  | endOfOptions
  /-- An option by its long name, with the value attached to it. -/
  | long (name : String) (attached : Option String)
  /-- An option by its short name, with the value attached to it. -/
  | short (name : Char) (attached : Option String)
deriving DecidableEq, Repr

/-- A text cut at its first equals sign, if it has one. -/
def splitEquals (cs : List Char) : String × Option String :=
  (String.ofList (cs.takeWhile (· != '=')), match cs.dropWhile (· != '=') with
    | [] => none
    | _ :: value => some (String.ofList value))

/-- How an argument is to be taken by its form. -/
def Token.ofArgument (argument : String) : Token :=
  match argument.toList with
  | ['-', '-'] => .endOfOptions
  | '-' :: '-' :: cs =>
    let (name, attached) := splitEquals cs
    .long name attached
  | ['-', c] => .short c none
  | '-' :: c :: '=' :: cs => .short c (some (String.ofList cs))
  | '-' :: c :: cs => .short c (some (String.ofList cs))
  | _ => .operand

/-- What a command accepts. -/
structure Grammar where
  options : List OptionSpec
  /-- For each operand in order, whether it may be empty. -/
  operands : List Bool

namespace Grammar

/-- The arguments with one operand more. -/
def addOperand (g : Grammar) (a : Arguments) (operand : String) : Except Refusal Arguments :=
  match g.operands[a.operands.length]? with
  | none => throw .usage
  | some mayBeEmpty =>
    if operand.isEmpty && !mayBeEmpty then throw .usage else pure (a.addOperand operand)

/-- The option that an argument names. -/
def find (g : Grammar) (named : OptionSpec → Bool) (attached : Option String) :
    Except Refusal OptionSpec :=
  match g.options.find? named with
  | none => throw .usage
  | some spec => if !spec.takesValue && attached.isSome then throw .usage else pure spec

/-- Whether an argument of its own may be the value of an option. -/
def isValue (argument : String) : Bool :=
  Token.ofArgument argument = .operand

/-- The arguments if no operand is missing. -/
def finish (g : Grammar) (a : Arguments) : Except Refusal Arguments :=
  if a.operands.length < g.operands.length then throw .usage else pure a

/-- Takes an option: either it is complete, or its value is the next argument. -/
def takeOption (a : Arguments) (spec : OptionSpec) (attached : Option String) :
    Except Refusal (Arguments × Option OptionSpec) :=
  match attached with
  | some value => (·, none) <$> a.addOption spec value
  | none => if spec.takesValue then pure (a, some spec) else (·, none) <$> a.addOption spec ""

/-- Reads arguments after those in `a`; `pending` is an option that waits for its value. -/
def read (g : Grammar) : Option OptionSpec → Arguments → List String → Except Refusal Arguments
  | some _, _, [] => throw .usage
  | none, a, [] => g.finish a
  | some spec, a, value :: rest => do
    if isValue value then read g none (← a.addOption spec value) rest else throw .usage
  | none, a, argument :: rest => do
    match Token.ofArgument argument with
    | .operand => read g none (← g.addOperand a argument) rest
    | .endOfOptions => g.finish (← rest.foldlM g.addOperand a)
    | .long "help" none | .short 'h' _ => throw .help
    | .long name attached =>
      let (a, pending) ← takeOption a (← g.find (·.long = name) attached) attached
      read g pending a rest
    | .short name attached =>
      let (a, pending) ← takeOption a (← g.find (·.short = some name) attached) attached
      read g pending a rest

end Grammar

end UnrealPackage
