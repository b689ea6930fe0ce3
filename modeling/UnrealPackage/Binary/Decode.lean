import UnrealPackage.Error
import UnrealPackage.Decimal.Shortest
/-!
# Reading and writing fixed-width values

A decoder takes the bytes that are left and gives a value with the bytes that are left after it, or
the reason why there is no value. Everything in a package is little-endian.

Beside each decoder stands its encoder; counted sequences are read by `Decode.times`.
-/

namespace UnrealPackage

/-- A reader of the bytes that are left. -/
abbrev Decode := StateT (List UInt8) (Except Error)

namespace Decode

/-- One byte. -/
def u8 : Decode UInt8 := fun
  | b :: rest => .ok (b, rest)
  | [] => .error .truncated

/-- The value of the first `n` bytes, least significant first. -/
def littleEndian : Nat → Decode Nat
  | 0 => pure 0
  | n + 1 => do
    let b ← u8
    let high ← littleEndian n
    pure (b.toNat + 256 * high)

/-- Two bytes. -/
def u16 : Decode UInt16 := UInt16.ofNat <$> littleEndian 2

/-- Four bytes. -/
def u32 : Decode UInt32 := UInt32.ofNat <$> littleEndian 4

/-- Eight bytes. -/
def u64 : Decode UInt64 := UInt64.ofNat <$> littleEndian 8

/-- Four bytes as a signed number in two's complement. -/
def i32 : Decode Int32 := UInt32.toInt32 <$> u32

/-- Four bytes as the bits of a floating-point number. -/
def single : Decode Single := Single.mk <$> u32

/-- Exactly the next `n` bytes. -/
def bytes (n : Nat) : Decode (List UInt8) := fun input =>
  let taken := input.take n
  if taken.length < n then .error .truncated else .ok (taken, input.drop n)

/-- The bytes up to the next zero, which is dropped. -/
def untilZero : Decode (List UInt8) := fun input =>
  match input.dropWhile (· != 0) with
  | [] => .error .truncated
  | _ :: rest => .ok (input.takeWhile (· != 0), rest)

/-- The same item `n` times in a row. -/
def times (item : Decode α) : Nat → Decode (List α)
  | 0 => pure []
  | n + 1 => do
    let a ← item
    let as ← times item n
    pure (a :: as)

/-- As many items as a signed count says; none if it is negative. -/
def counted (item : Decode α) (count : Int32) : Decode (List α) :=
  times item count.toInt.toNat

end Decode

namespace Encode

/-- The `n` least significant bytes of a number, the least significant first. -/
def littleEndian : Nat → Nat → List UInt8
  | 0, _ => []
  | n + 1, v => (v % 256).toUInt8 :: littleEndian n (v / 256)

/-- Two bytes. -/
def u16 (v : UInt16) : List UInt8 := littleEndian 2 v.toNat

/-- Four bytes. -/
def u32 (v : UInt32) : List UInt8 := littleEndian 4 v.toNat

/-- Four bytes of a signed number in two's complement. -/
def i32 (v : Int32) : List UInt8 := u32 v.toUInt32

/-- Four bytes of a floating-point number. -/
def single (v : Single) : List UInt8 := u32 v.bits

end Encode

end UnrealPackage
