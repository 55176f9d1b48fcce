import Folio.Number.Double

/-!
# The shortest decimal of a double

Among the decimals that a reader would round to a given double, the one with the fewest digits, and
of those the nearest, or the even one if two are equally near. Numbers from one millionth up to
10²¹ are written positionally, the others with a power of ten.
-/

namespace Folio.Double

/-- The number of decimal digits of a number; zero has one. -/
def digitCount (n : Nat) : Nat := (Text.ofNat n).length

/-- The power of ten at the first digit of a positive fraction. -/
def decimalExponent (num den : Nat) : Int :=
  if den ≤ num then digitCount (num / den) - 1
  else
    let places := digitCount (den / num)
    if num * tenTo (places - 1) = den then 1 - (places : Int) else -(places : Int)

/-- A decimal: its digits as a number, and the power of ten they are multiplied with. -/
structure Decimal where
  digits : Nat
  exponent : Int
  deriving DecidableEq, Repr

/-- The fractions that round to a double, as multiples of `1 / den`: from `low` to `high`, the ends
included if `closed` is set. The double itself is `mid / den`. -/
structure Rounding where
  low : Nat
  mid : Nat
  high : Nat
  den : Nat
  closed : Bool
  deriving DecidableEq, Repr

/-- The fractions that round to a double. Below a power of two the neighbour is only half as far. -/
def rounding (mantissa : Nat) (exponent : Int) : Rounding :=
  let (scale, den) := fraction 1 (exponent - 2)
  let below := if mantissa = twoTo 52 && -1074 < exponent then 1 else 2
  { low := (4 * mantissa - below) * scale
    mid := 4 * mantissa * scale
    high := (4 * mantissa + 2) * scale
    den
    closed := mantissa % 2 = 0 }

/-- The decimals with the given exponent next to a double that round to it: the nearer first, or the
even one if both are equally near. -/
def Rounding.candidates (range : Rounding) (exponent : Int) : List Decimal :=
  -- `a / den` is compared with `digits * 10 ^ exponent` as `a * up` with `digits * unit`
  let up := tenTo (-exponent).toNat
  let unit := range.den * tenTo exponent.toNat
  let lower := range.mid * up / unit
  let remainder := range.mid * up % unit
  let down : Bool :=
    2 * remainder < unit || (2 * remainder = unit && lower % 2 = 0)
  let order := if down then [lower, lower + 1] else [lower + 1, lower]
  let inside (digits : Nat) : Bool :=
    let value := digits * unit
    if range.closed then range.low * up ≤ value && value ≤ range.high * up
    else range.low * up < value && value < range.high * up
  (order.filter inside).map fun digits => ⟨digits, exponent⟩

/-- The first decimal that rounds to a double, trying exponents downwards. -/
def Rounding.search (range : Rounding) : (fuel : Nat) → (exponent : Int) → Decimal
  | 0, exponent => ⟨range.mid / range.den, exponent⟩
  | fuel + 1, exponent =>
    match range.candidates exponent with
    | decimal :: _ => decimal
    | [] => range.search fuel (exponent - 1)

/-- The shortest decimal of a positive double. -/
def shortest (mantissa : Nat) (exponent : Int) : Decimal :=
  let range := rounding mantissa exponent
  range.search 17 (decimalExponent range.mid range.den)

/-- The digits of a decimal with zeros at the end dropped, and where its point stands: behind so
many digits. -/
def Decimal.layout (decimal : Decimal) : Text × Int :=
  let digits := Text.ofNat decimal.digits
  let kept := (digits.reverse.dropWhile (· == '0')).reverse
  (kept, decimal.exponent + digits.length)

def Decimal.text (decimal : Decimal) : Text :=
  let (digits, point) := decimal.layout
  let count : Int := digits.length
  if count ≤ point && point ≤ 21 then digits ++ List.replicate (point - count).toNat '0'
  else if 0 < point && point ≤ 21 then
    digits.take point.toNat ++ "." ++ digits.drop point.toNat
  else if -6 < point && point ≤ 0 then
    "0." ++ List.replicate (-point).toNat '0' ++ digits
  else
    let mantissa : Text :=
      match digits with
      | [digit] => [digit]
      | digit :: rest => digit :: '.' :: rest
      | [] => []
    let power := point - 1
    mantissa ++ "e" ++ (if power < 0 then "-" else "+") ++ Text.ofNat power.natAbs

/-- A double as a text. Zero has no sign. -/
def text : Double → Text
  | nan => "NaN"
  | infinite negative => if negative then "-Infinity" else "Infinity"
  | finite negative mantissa exponent =>
    if mantissa = 0 then "0"
    else
      let digits := (shortest mantissa exponent).text
      if negative then '-' :: digits else digits

end Folio.Double
