/-!
# UTF-8

Characters as bytes and back. `Utf8.decode` keeps one place for every ill-formed stretch: a `none`
for each maximal run of bytes that begins a character and is then broken off, so that a caller may
refuse the text or put a replacement character there.
-/

namespace UnrealPackage.Utf8

/-- The bytes of a text. -/
def encode (cs : List Char) : List UInt8 :=
  cs.flatMap String.utf8EncodeChar

/-- A character that lacks `missing` more bytes: the bits so far, and the range of the next byte. -/
structure Partial where
  missing : Nat
  bits : Nat
  low : Nat
  high : Nat

/-- What a byte at the start of a character gives, and what it leaves open. -/
def start (b : UInt8) : List (Option Char) × Option Partial :=
  let n := b.toNat
  if n < 0x80 then ([some (Char.ofNat n)], none)
  else if 0xC2 ≤ n ∧ n ≤ 0xDF then ([], some ⟨1, n % 0x20, 0x80, 0xBF⟩)
  else if n = 0xE0 then ([], some ⟨2, 0, 0xA0, 0xBF⟩)
  else if n = 0xED then ([], some ⟨2, 0xD, 0x80, 0x9F⟩)
  else if 0xE1 ≤ n ∧ n ≤ 0xEF then ([], some ⟨2, n % 0x10, 0x80, 0xBF⟩)
  else if n = 0xF0 then ([], some ⟨3, 0, 0x90, 0xBF⟩)
  else if 0xF1 ≤ n ∧ n ≤ 0xF3 then ([], some ⟨3, n % 8, 0x80, 0xBF⟩)
  else if n = 0xF4 then ([], some ⟨3, 4, 0x80, 0x8F⟩)
  else ([none], none)

/-- The characters of the bytes that follow an unfinished one. -/
def decodeFrom : Option Partial → List UInt8 → List (Option Char)
  | none, [] => []
  | some _, [] => [none]
  | none, b :: bs =>
    let (out, p) := start b
    out ++ decodeFrom p bs
  | some p, b :: bs =>
    if p.low ≤ b.toNat ∧ b.toNat ≤ p.high then
      let bits := p.bits * 64 + b.toNat % 64
      if p.missing ≤ 1 then some (Char.ofNat bits) :: decodeFrom none bs
      else decodeFrom (some ⟨p.missing - 1, bits, 0x80, 0xBF⟩) bs
    else
      let (out, p) := start b
      none :: out ++ decodeFrom p bs

/-- The characters of a byte string, `none` for each ill-formed stretch. -/
def decode (bytes : List UInt8) : List (Option Char) :=
  decodeFrom none bytes

end UnrealPackage.Utf8
