import Folio.Text.Basic

/-!
# Reading numerals

Decimal numerals with fraction and power of ten, and hexadecimal, octal and binary ones, read as
doubles.
-/

namespace Folio.Numeral

/-- The value of a digit, also of the letters behind nine. -/
def digitValue? (c : Char) : Option Nat :=
  if c.isDigit then some (c.toNat - '0'.toNat)
  else if 'a' ≤ c && c ≤ 'z' then some (c.toNat - 'a'.toNat + 10)
  else if 'A' ≤ c && c ≤ 'Z' then some (c.toNat - 'A'.toNat + 10)
  else none

def ofDigits (base : Nat) (digits : Text) : Nat :=
  digits.foldl (fun n c => base * n + (digitValue? c).getD 0) 0

/-- A numeral made of digits of a base only, at least one. -/
def whole? (base : Nat) (text : Text) : Option Nat :=
  if text ≠ [] && text.all fun c => (digitValue? c).any (· < base) then some (ofDigits base text)
  else none

/-- The double nearest to `digits * 10 ^ exponent`. Far outside the range of doubles nothing is
computed. -/
def toFloat (digits : Nat) (exponent : Int) : Float :=
  let size := (Nat.toDigits 10 digits).length + exponent
  if digits = 0 || size < -400 then 0
  else if 400 < size then 1 / 0
  else Float.ofScientific digits (exponent < 0) exponent.natAbs

/-- The sign in front of a text, and the rest. -/
def sign (text : Text) : Bool × Text :=
  match text with
  | '-' :: rest => (true, rest)
  | '+' :: rest => (false, rest)
  | _ => (false, text)

/-- The power of ten behind a decimal numeral: nothing, or `e` and a whole number. -/
def power? (text : Text) : Option Int :=
  match text with
  | [] => some 0
  | 'e' :: rest | 'E' :: rest =>
    let (negative, digits) := sign rest
    (whole? 10 digits).map fun n => if negative then -(n : Int) else n
  | _ => none

def decimal? (text : Text) : Option Float :=
  let whole := text.takeWhile Char.isDigit
  let behind := text.dropWhile Char.isDigit
  let (fraction, rest) : Text × Text :=
    match behind with
    | '.' :: rest => (rest.takeWhile Char.isDigit, rest.dropWhile Char.isDigit)
    | _ => ([], behind)
  if whole ++ fraction = [] then none
  else (power? rest).map fun power =>
    toFloat (ofDigits 10 (whole ++ fraction)) (power - fraction.length)

/-- A decimal numeral with or without a sign. -/
def signed? (text : Text) : Option Float :=
  let (negative, rest) := sign text
  (decimal? rest).map fun x => if negative then -x else x

/-- A numeral. The empty text is zero. -/
def parse? (text : Text) : Option Float :=
  match text with
  | [] => some 0
  | '0' :: 'x' :: digits | '0' :: 'X' :: digits => (whole? 16 digits).map (toFloat · 0)
  | '0' :: 'o' :: digits | '0' :: 'O' :: digits => (whole? 8 digits).map (toFloat · 0)
  | '0' :: 'b' :: digits | '0' :: 'B' :: digits => (whole? 2 digits).map (toFloat · 0)
  | _ => signed? text

/-- The whole number, with or without a sign, at the beginning of a text. -/
def leading? (text : Text) : Option Float :=
  let (negative, rest) := sign text
  let digits := rest.takeWhile Char.isDigit
  if digits = [] then none
  else
    let x := toFloat (ofDigits 10 digits) 0
    some (if negative then -x else x)

end Folio.Numeral
