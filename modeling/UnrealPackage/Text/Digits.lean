/-!
# Digits and columns

Numbers in hexadecimal, and text filled up to the width of a column. Widths count characters.
-/

namespace UnrealPackage

/-- The number in lower-case hexadecimal, without leading zeros. -/
def hex (n : Nat) : String :=
  String.ofList (Nat.toDigits 16 n)

/-- The text moved to the right edge of a column of `width` characters. -/
def alignRight (width : Nat) (s : String) (fill : Char := ' ') : String :=
  String.ofList (List.replicate (width - s.length) fill) ++ s

/-- The text at the left edge of a column of `width` characters. -/
def alignLeft (width : Nat) (s : String) : String :=
  s ++ String.ofList (List.replicate (width - s.length) ' ')

/-- The number in hexadecimal with at least `width` digits. -/
def hexPadded (width n : Nat) : String :=
  alignRight width (hex n) '0'

/-- A byte as two hexadecimal digits. -/
def hexByte (b : UInt8) : String :=
  hexPadded 2 b.toNat

/-- Bytes as a run of hexadecimal digits. -/
def hexBytes (bytes : List UInt8) : String :=
  String.join (bytes.map hexByte)

end UnrealPackage
