/-!
# UTF-16

Characters as 16-bit units and back. A surrogate without its partner is no character and decodes
to `none`.
-/

namespace UnrealPackage.Utf16

/-- One unit, or two surrogates for a character beyond the first plane. -/
def encodeChar (c : Char) : List UInt16 :=
  let n := c.toNat
  if n < 0x10000 then [n.toUInt16]
  else [(0xD800 + (n - 0x10000) / 0x400).toUInt16, (0xDC00 + (n - 0x10000) % 0x400).toUInt16]

/-- The units of a text. -/
def encode (cs : List Char) : List UInt16 :=
  cs.flatMap encodeChar

/-- Whether a unit is the first half of a pair. -/
def isHigh (u : UInt16) : Bool :=
  0xD800 ≤ u && u ≤ 0xDBFF

/-- Whether a unit is the second half of a pair. -/
def isLow (u : UInt16) : Bool :=
  0xDC00 ≤ u && u ≤ 0xDFFF

/-- The character of a pair. -/
def pair (high low : UInt16) : Char :=
  Char.ofNat (0x10000 + (high.toNat - 0xD800) * 0x400 + (low.toNat - 0xDC00))

/-- The character of a unit that stands alone, unless it is half of a pair. -/
def single (u : UInt16) : Option Char :=
  if isHigh u || isLow u then none else some (Char.ofNat u.toNat)

/-- The characters of a run of units, `none` for each lone surrogate. -/
def decode : List UInt16 → List (Option Char)
  | [] => []
  | [u] => [single u]
  | u :: v :: rest =>
    if isHigh u && isLow v then some (pair u v) :: decode rest
    else single u :: decode (v :: rest)

end UnrealPackage.Utf16
