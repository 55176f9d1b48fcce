import Folio.Text.Basic

/-!
# Doubles taken apart

The exact value of a double, and its rounding to whole numbers. What is exact here is computed on
natural numbers.
-/

namespace Folio

/-- What a double is: a sign, a mantissa and a power of two; an infinity; or no number. -/
inductive Double where
  | nan
  | infinite (negative : Bool)
  | finite (negative : Bool) (mantissa : Nat) (exponent : Int)
  deriving DecidableEq, Repr

namespace Double

def twoTo (n : Nat) : Nat := Nat.pow 2 n

def tenTo (n : Nat) : Nat := Nat.pow 10 n

/-- Take a double apart. -/
def ofFloat (x : Float) : Double :=
  let bits := x.toBits.toNat
  let negative : Bool := twoTo 63 ≤ bits
  let exponent : Nat := bits / twoTo 52 % twoTo 11
  let fraction := bits % twoTo 52
  if exponent = 2047 then if fraction = 0 then .infinite negative else .nan
  else if exponent = 0 then .finite negative fraction (-1074)
  else .finite negative (twoTo 52 + fraction) ((exponent : Int) - 1075)

/-- The quotient rounded to the nearest whole number, a half to the even one. -/
def roundDiv (num den : Nat) : Nat :=
  let quotient := num / den
  let twice := 2 * (num % den)
  if twice < den then quotient
  else if den < twice then quotient + 1
  else quotient + quotient % 2

/-- The value `mantissa * 2 ^ exponent` as a fraction. -/
def fraction (mantissa : Nat) (exponent : Int) : Nat × Nat :=
  (mantissa * twoTo exponent.toNat, twoTo (-exponent).toNat)

/-- A double rounded to a whole number, as a text. The sign is kept, also before zero. -/
def wholeText : Double → Text
  | nan => "nan"
  | infinite negative => if negative then "-inf" else "inf"
  | finite negative mantissa exponent =>
    let (num, den) := fraction mantissa exponent
    let digits := Text.ofNat (roundDiv num den)
    if negative then '-' :: digits else digits

/-- The greatest whole number that is not above a double; zero if there is none. -/
def floor : Double → Int
  | nan => 0
  | infinite _ => 0
  | finite negative mantissa exponent =>
    let (num, den) := fraction mantissa exponent
    if negative then -((num + den - 1) / den : Nat) else (num / den : Nat)

end Double

end Folio
