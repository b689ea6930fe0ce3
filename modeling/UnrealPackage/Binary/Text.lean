import UnrealPackage.Binary.CompactInt
import UnrealPackage.Text.Charset
import UnrealPackage.Text.Utf16
/-!
# Stored texts

A text is stored in one of three ways.

* With its length in front, a compact integer that counts a zero at the end: positive for bytes in
  the package's charset, negative for UTF-16 units. An empty text may also be the length zero alone.
* In the charset, up to a zero byte.
* In UTF-16, up to a zero unit.

The first form refuses what is no character; the second replaces it by U+FFFD.
-/

namespace UnrealPackage

/-- The text of decoded characters, if each of them is one. -/
def textOf? (cs : List (Option Char)) : Option String :=
  (cs.mapM id).map String.ofList

/-- The 16-bit units of a byte string, least significant byte first. -/
def unitsOfBytes : List UInt8 → List UInt16
  | low :: high :: rest => (low.toNat + 256 * high.toNat).toUInt16 :: unitsOfBytes rest
  | _ => []

namespace Decode

/-- Fails with `e` where there is no value. -/
def orThrow (e : Error) : Option α → Decode α
  | some a => pure a
  | none => throw e

/-- A text with its length in front. The zero at its end is not looked at. -/
def text (cs : Charset) : Decode String := do
  let length ← compact
  let count := length.toInt.natAbs
  if count = 0 then pure ""
  else if 0 < length.toInt then
    let stored ← bytes count
    orThrow .malformedString (textOf? (cs.decode stored.dropLast))
  else
    let stored ← bytes (2 * count)
    orThrow .malformedString (textOf? (Utf16.decode (unitsOfBytes stored).dropLast))

/-- A text in the charset, up to a zero byte. -/
def textUntilZero (cs : Charset) : Decode String :=
  cs.decodeLossy <$> untilZero

/-- The units up to a zero one, read while `fuel` lasts. -/
def unitsUntilZero : Nat → Decode (List UInt16)
  | 0 => throw .truncated
  | fuel + 1 => do
    let u ← u16
    if u = 0 then pure []
    else
      let rest ← unitsUntilZero fuel
      pure (u :: rest)

/-- A text in UTF-16, up to a zero unit; `onLoneSurrogate` if half of a pair stands in it. -/
def wideTextUntilZero (onLoneSurrogate : Error) : Decode String := do
  let input ← get
  let units ← unitsUntilZero (input.length + 1)
  orThrow onLoneSurrogate (textOf? (Utf16.decode units))

end Decode

namespace Encode

/-- The units of a text and a zero unit. -/
def wideTextUntilZero (s : String) : List UInt8 :=
  (Utf16.encode s.toList ++ [0]).flatMap u16

/-- A text with its length in front: in the charset if that gives every character one byte, in
UTF-16 otherwise. -/
def text (cs : Charset) (s : String) : List UInt8 :=
  match if cs.isSingleByte then cs.encode? s else none with
  | some stored => compact (Int32.ofNat (stored.length + 1)) ++ stored ++ [0]
  | none =>
    compact (Int32.ofInt (-((Utf16.encode s.toList).length + 1))) ++ wideTextUntilZero s

/-- A text in the charset and a zero byte. -/
def textUntilZero (cs : Charset) (s : String) : List UInt8 :=
  cs.encodeLossy s ++ [0]

end Encode

end UnrealPackage
