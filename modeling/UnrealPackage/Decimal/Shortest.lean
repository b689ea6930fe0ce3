/-!
# Shortest decimals of binary floating-point numbers

A 32-bit floating-point number is kept as its bits, so that it moves through a codec unchanged.
`Single.shortest?` finds the decimal with the fewest digits that lies in the interval of reals
rounding to the number; of two such decimals it takes the nearer one.

All arithmetic is on natural numbers: a finite value is `mantissa * 2 ^ exponent`, and the ends of
its interval are multiples of a quarter of the unit in the last place.
-/

namespace UnrealPackage

/-- A 32-bit floating-point number, as its bits. -/
structure Single where
  bits : UInt32
deriving DecidableEq, Repr, Inhabited

namespace Single

/-- Whether the sign bit is set. -/
def isNegative (x : Single) : Bool :=
  x.bits.toNat / 0x80000000 = 1

/-- The eight exponent bits. -/
def exponentBits (x : Single) : Nat :=
  x.bits.toNat / 0x800000 % 256

/-- The twenty-three fraction bits. -/
def fraction (x : Single) : Nat :=
  x.bits.toNat % 0x800000

/-- Whether the bits stand for an infinity or for no number at all. -/
def isSpecial (x : Single) : Bool :=
  x.exponentBits = 255

end Single

/-- A decimal number `digits * 10 ^ exponent`. -/
structure Decimal where
  digits : Nat
  exponent : Int
deriving DecidableEq, Repr

/-- What to do with a value halfway between two equally short decimals. -/
inductive TieRule
  | upward
  | toEven
deriving DecidableEq, Repr

/-- A positive dyadic number `mantissa * 2 ^ exponent` with the reals that round to it: all within
half a unit above, and within half a unit below or a quarter if the number is the least of its
binade. -/
structure Dyadic32 where
  mantissa : Nat
  exponent : Int
  leastOfBinade : Bool

namespace Dyadic32

/-- The magnitude of a finite number. -/
def ofSingle (x : Single) : Dyadic32 :=
  if x.exponentBits = 0 then ⟨x.fraction, -149, false⟩
  else ⟨x.fraction + 0x800000, x.exponentBits - 150, x.fraction = 0 ∧ 1 < x.exponentBits⟩

/-- Numerator and denominator of `a * 2 ^ p * 10 ^ q`. -/
def ratio (a : Nat) (p q : Int) : Nat × Nat :=
  (a * Nat.pow 2 p.toNat * Nat.pow 10 q.toNat, Nat.pow 2 (-p).toNat * Nat.pow 10 (-q).toNat)

/-- How `a * 2 ^ p` compares with `b * 10 ^ k`. -/
def compareWith (a : Nat) (p : Int) (b : Nat) (k : Int) : Ordering :=
  let (n, d) := ratio a p (-k)
  compare n (b * d)

/-- Whether `b * 10 ^ k` rounds to the number. -/
def holds (v : Dyadic32) (b : Nat) (k : Int) : Bool :=
  let low := compareWith (4 * v.mantissa - if v.leastOfBinade then 1 else 2) (v.exponent - 2) b k
  let high := compareWith (4 * v.mantissa + 2) (v.exponent - 2) b k
  if v.mantissa % 2 = 0 then low != .gt && high != .lt else low == .lt && high == .gt

/-- The power of ten of the leading digit, looked for downwards from `top`. -/
def leadingExponent (v : Dyadic32) (top : Int) : Nat → Int
  | 0 => top
  | steps + 1 =>
    if compareWith v.mantissa v.exponent 1 top != .lt then top
    else leadingExponent v (top - 1) steps

/-- The better of the two multiples of `10 ^ k` around the number that round to it. -/
def onGrid? (v : Dyadic32) (tie : TieRule) (k : Int) : Option Decimal :=
  let (n, d) := ratio v.mantissa v.exponent (-k)
  let below := n / d
  let above := below + 1
  match v.holds below k, v.holds above k with
  | false, false => none
  | true, false => some ⟨below, k⟩
  | false, true => some ⟨above, k⟩
  | true, true =>
    let nearer := match compare (2 * (n - below * d)) d with
      | .lt => below
      | .gt => above
      | .eq => match tie with
        | .upward => above
        | .toEven => if below % 2 = 0 then below else above
    some ⟨nearer, k⟩

/-- The first grid with a hit, with `count` digits or more; seventeen always suffice. -/
def firstGrid (v : Dyadic32) (tie : TieRule) (leading : Int) (count : Nat) : Nat → Decimal
  | 0 => ⟨v.mantissa, 0⟩
  | steps + 1 =>
    match v.onGrid? tie (leading + 1 - count) with
    | some r => r
    | none => firstGrid v tie leading (count + 1) steps

end Dyadic32

/-- The magnitude of a finite number as the decimal with the fewest digits that reads back; `none`
for infinities and for what is no number. -/
def Single.shortest? (x : Single) (tie : TieRule) : Option Decimal :=
  if x.isSpecial then none
  else
    let v := Dyadic32.ofSingle x
    if v.mantissa = 0 then some ⟨0, 0⟩
    else some (v.firstGrid tie (v.leadingExponent 39 90) 1 17)

end UnrealPackage
