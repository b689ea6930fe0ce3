/-!
# Flags

The bits that packages, objects, functions and properties carry, and the names under which package
and object flags are listed.
-/

namespace UnrealPackage

/-- A flag bit with the name it is listed under. -/
structure FlagName where
  mask : UInt32
  name : String

/-- Whether any bit of `mask` is set. -/
def hasFlag (flags mask : UInt32) : Bool :=
  flags &&& mask != 0

/-- The names of the bits that are set, in the order of the list. -/
def describeFlags (flags : UInt32) (names : List FlagName) : List String :=
  (names.filter fun n => hasFlag flags n.mask).map FlagName.name

/-- The object is visible outside its package. -/
def ObjectFlag.visible : UInt32 := 0x00000004
/-- The object is loaded by a client. -/
def ObjectFlag.loadForClient : UInt32 := 0x00010000
/-- The object is loaded by a server. -/
def ObjectFlag.loadForServer : UInt32 := 0x00020000
/-- The object is loaded by the editor. -/
def ObjectFlag.loadForEdit : UInt32 := 0x00040000
/-- The object's payload begins with the state of its script. -/
def ObjectFlag.hasStack : UInt32 := 0x02000000

/-- The flags of names, imports and package exports that are created on the way. -/
def implicitFlags : UInt32 :=
  ObjectFlag.visible ||| ObjectFlag.loadForClient ||| ObjectFlag.loadForServer |||
    ObjectFlag.loadForEdit

/-- The operator is written before its operand. -/
def FunctionFlag.preOperator : UInt32 := 0x00000010
/-- The function is replicated. -/
def FunctionFlag.net : UInt32 := 0x00000040
/-- The function is implemented outside the script. -/
def FunctionFlag.native : UInt32 := 0x00000400
/-- The function is an operator. -/
def FunctionFlag.operator : UInt32 := 0x00001000

/-- The property is replicated. -/
def PropertyFlag.net : UInt32 := 0x00000020

/-- The object flags by name, from the lowest bit. -/
def objectFlagNames : List FlagName := [
  ⟨0x00000001, "Transactional"⟩,
  ⟨0x00000002, "Unreachable"⟩,
  ⟨0x00000004, "Public"⟩,
  ⟨0x00000008, "TagImp"⟩,
  ⟨0x00000010, "TagExp"⟩,
  ⟨0x00000020, "SourceModified"⟩,
  ⟨0x00000040, "TagGarbage"⟩,
  ⟨0x00000200, "NeedLoad"⟩,
  ⟨0x00000400, "HighlightedName"⟩,
  ⟨0x00000800, "InSingularFunc"⟩,
  ⟨0x00001000, "Suppress"⟩,
  ⟨0x00002000, "InEndState"⟩,
  ⟨0x00004000, "Transient"⟩,
  ⟨0x00008000, "PreLoading"⟩,
  ⟨0x00010000, "LoadForClient"⟩,
  ⟨0x00020000, "LoadForServer"⟩,
  ⟨0x00040000, "LoadForEdit"⟩,
  ⟨0x00080000, "Standalone"⟩,
  ⟨0x00100000, "NotForClient"⟩,
  ⟨0x00200000, "NotForServer"⟩,
  ⟨0x00400000, "NotForEdit"⟩,
  ⟨0x00800000, "Destroyed"⟩,
  ⟨0x01000000, "NeedPostLoad"⟩,
  ⟨0x02000000, "HasStack"⟩,
  ⟨0x04000000, "Native"⟩,
  ⟨0x08000000, "Marked"⟩,
  ⟨0x10000000, "ErrorShutdown"⟩,
  ⟨0x20000000, "DebugPostLoad"⟩,
  ⟨0x40000000, "DebugSerialize"⟩,
  ⟨0x80000000, "DebugDestroy"⟩]

/-- The package flags by name, from the lowest bit. -/
def packageFlagNames : List FlagName := [
  ⟨0x00000001, "AllowDownload"⟩,
  ⟨0x00000002, "ClientOptional"⟩,
  ⟨0x00000004, "ServerSideOnly"⟩,
  ⟨0x00000008, "BrokenLinks"⟩,
  ⟨0x00000010, "Unsecure"⟩,
  ⟨0x00008000, "Need"⟩]

end UnrealPackage
