import UnrealPackage.Binary.Decode
/-!
# Compact integers

A signed 32-bit number in one to five bytes, by sign and magnitude. The first byte holds the sign
in bit 7, a mark that more bytes follow in bit 6, and the six lowest bits of the magnitude. The
next three hold seven bits each below their own mark, the fifth holds the last five bits.

Writing takes as few bytes as the magnitude allows. Reading accepts longer forms, a negative zero
and stray high bits in the fifth byte as well; the magnitude wraps to 32 bits.
-/

namespace UnrealPackage

namespace Encode

/-- The bytes after the first one, for a magnitude shifted right by the bits already written. -/
def compactTail : Nat → Nat → List UInt8
  | 0, _ => []
  | n + 1, m =>
    if m < 128 then [m.toUInt8] else (m % 128 + 128).toUInt8 :: compactTail n (m / 128)

/-- A number in its shortest compact form. -/
def compact (v : Int32) : List UInt8 :=
  let m := v.toInt.natAbs
  let sign := if v.toInt < 0 then 128 else 0
  if m < 64 then [(sign + m).toUInt8]
  else (sign + 64 + m % 64).toUInt8 :: compactTail 4 (m / 64)

end Encode

namespace Decode

/-- The bytes after the first one, of which `n` may carry a mark that more follow. -/
def compactTail : Nat → Decode Nat
  | 0 => do
    let b ← u8
    pure (b.toNat % 32)
  | n + 1 => do
    let b ← u8
    if b.toNat < 128 then pure b.toNat
    else
      let high ← compactTail n
      pure (b.toNat % 128 + 128 * high)

/-- A number in any of its compact forms. -/
def compact : Decode Int32 := do
  let b ← u8
  let low := b.toNat % 64
  let m ← if b.toNat / 64 % 2 = 1 then (low + 64 * ·) <$> compactTail 3 else pure low
  pure (Int32.ofInt (if b.toNat < 128 then m else -m))

end Decode

end UnrealPackage
