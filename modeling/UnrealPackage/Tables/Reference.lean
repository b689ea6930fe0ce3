/-!
# Object references

Every reference from one object to another is a signed number: zero refers to nothing, a positive
number to an export, a negative one to an import.
-/

namespace UnrealPackage

/-- A reference to an object of the package or to one that it imports. -/
structure ObjectRef where
  value : Int32
deriving DecidableEq, Repr, Inhabited

/-- What a reference leads to. -/
inductive Target
  | nothing
  | exported (index : Nat)
  | imported (index : Nat)
deriving DecidableEq, Repr

namespace ObjectRef

/-- The reference to nothing. -/
def none : ObjectRef := ⟨0⟩

/-- The reference to an export. -/
def ofExport (index : Nat) : ObjectRef := ⟨Int32.ofInt (index + 1)⟩

/-- The reference to an import. -/
def ofImport (index : Nat) : ObjectRef := ⟨Int32.ofInt (-index - 1)⟩

/-- Whether the reference leads to nothing. -/
def isNone (r : ObjectRef) : Bool := r.value == 0

/-- What the reference leads to; the index may lie outside the table. -/
def target (r : ObjectRef) : Target :=
  let n := r.value.toInt
  if n = 0 then .nothing
  else if 0 < n then .exported (n - 1).toNat
  else .imported (-n - 1).toNat

end ObjectRef

end UnrealPackage
