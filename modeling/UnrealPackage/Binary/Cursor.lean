import UnrealPackage.Binary.Text
/-!
# Bytes with a position

A cursor reads and writes at a position in a byte string. Writing past the end first fills the gap
with zeros; cutting the bytes moves a position behind the new end back to it.
-/

namespace UnrealPackage

/-- The bytes cut or filled up with zeros to `length`. -/
def resize (image : List UInt8) (length : Nat) : List UInt8 :=
  image.take length ++ List.replicate (length - image.length) 0

/-- The bytes with `data` in the place of what stood at `position`, filled up with zeros before it
where they were shorter. -/
def writeAt (image : List UInt8) (position : Nat) (data : List UInt8) : List UInt8 :=
  resize image position ++ data ++ image.drop (position + data.length)

/-- A byte string and a position in it, or behind it. -/
structure Cursor where
  image : List UInt8
  position : Nat

namespace Cursor

/-- Reads at the position and moves behind what was read; a failure leaves the cursor as it is. -/
def read (c : Cursor) (d : Decode α) : Except Error (α × Cursor) := do
  let input := c.image.drop c.position
  let (a, rest) ← d input
  pure (a, { c with position := c.position + (input.length - rest.length) })

/-- Writes at the position and moves behind what was written. -/
def write (c : Cursor) (data : List UInt8) : Cursor :=
  ⟨writeAt c.image c.position data, c.position + data.length⟩

/-- Moves to a position, which may lie behind the end. -/
def seek (c : Cursor) (position : Nat) : Cursor :=
  { c with position }

/-- Cuts or extends the bytes. -/
def setLength (c : Cursor) (length : Nat) : Cursor :=
  ⟨resize c.image length, min c.position length⟩

end Cursor

end UnrealPackage
