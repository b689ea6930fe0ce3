import UnrealPackage.Decimal.Shortest
/-!
# Layout of decimal numbers

How the digits of a floating-point number are set: in full with a decimal point, or with an
exponent. `FloatLayout` holds the decisions, `Single.show` follows them.
-/

namespace UnrealPackage

/-- The decisions a text format makes about floating-point numbers. -/
structure FloatLayout where
  /-- What to do with a value halfway between two equally short decimals. -/
  tie : TieRule
  /-- Least power of ten of the leading digit that is written in full. -/
  fullFrom : Int
  /-- Greatest power of ten of the leading digit that is written in full. -/
  fullTo : Int
  /-- Whether a positive exponent carries its sign. -/
  plusSign : Bool
  /-- The text for what is no number. -/
  notANumber : String
  /-- The text for infinity, and the one for negative infinity. -/
  infinity : String
  negativeInfinity : String

/-- Digits written in full: at least one on each side of the point. -/
def Decimal.inFull (d : Decimal) : String :=
  let ds := Nat.toDigits 10 d.digits
  if 0 ≤ d.exponent then String.ofList (ds ++ List.replicate d.exponent.toNat '0') ++ ".0"
  else
    let places := (-d.exponent).toNat
    let ds := List.replicate (places + 1 - ds.length) '0' ++ ds
    let split := ds.length - places
    String.ofList (ds.take split) ++ "." ++ String.ofList (ds.drop split)

/-- The power of ten of the leading digit. -/
def Decimal.leading (d : Decimal) : Int :=
  d.exponent + (Nat.toDigits 10 d.digits).length - 1

/-- Digits with the point after the first one, and the power of ten behind them. -/
def Decimal.withExponent (d : Decimal) (plusSign : Bool) : String :=
  let fraction := (Nat.toDigits 10 d.digits).tail
  let point := if fraction.isEmpty then "" else "." ++ String.ofList fraction
  let sign := if plusSign && 0 ≤ d.leading then "+" else ""
  String.ofList ((Nat.toDigits 10 d.digits).take 1) ++ point ++ "e" ++ sign ++ toString d.leading

/-- The decimal without zeros at its end. -/
def Decimal.trimmed (d : Decimal) : Decimal :=
  let rec go (n : Nat) (e : Int) : Nat → Decimal
    | 0 => ⟨n, e⟩
    | steps + 1 => if n ≠ 0 ∧ n % 10 = 0 then go (n / 10) (e + 1) steps else ⟨n, e⟩
  go d.digits d.exponent 20

/-- The number as a text. -/
def Single.show (layout : FloatLayout) (x : Single) : String :=
  match x.shortest? layout.tie with
  | none =>
    if x.fraction ≠ 0 then layout.notANumber
    else if x.isNegative then layout.negativeInfinity else layout.infinity
  | some d =>
    let d := d.trimmed
    let text :=
      if d.digits = 0 then "0.0"
      else if layout.fullFrom ≤ d.leading ∧ d.leading ≤ layout.fullTo then d.inFull
      else d.withExponent layout.plusSign
    (if x.isNegative then "-" else "") ++ text

end UnrealPackage
