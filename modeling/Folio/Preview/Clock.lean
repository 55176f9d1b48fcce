import Folio.Number.Double

/-!
# The time of day

A clock shows seconds since the beginning of 1970. The time of day is taken from it by way of the
calendar, which has a first and a last year, so a clock can show times that have no time of day.
-/

namespace Folio.Preview

/-- Why a clock has no time of day. -/
inductive ClockError where
  /-- The clock shows no number. -/
  | noNumber
  /-- The seconds do not fit into 64 bits. -/
  | tooFar
  /-- The calendar does not reach the year. -/
  | noYear
  /-- The calendar reaches the year, but it does not fit into 32 bits. -/
  | longYear
  deriving DecidableEq, Repr

def ClockError.message : ClockError → Text
  | noNumber => "Invalid value NaN (not a number)"
  | tooFar => "timestamp out of range for platform time_t"
  | noYear => "[Errno 75] Value too large for defined data type"
  | longYear => "signed integer is greater than maximum"

/-- The first second of the calendar: its years are counted from 1900 in 32 bits. -/
def firstSecond : Int := -67768040609740800

/-- The last second of the calendar. -/
def lastSecond : Int := 67768036191676799

/-- The last second of a year that fits into 32 bits itself. -/
def lastShortYearSecond : Int := 67767976233532799

/-- Two digits for a number below a hundred. -/
def twoDigits (n : Nat) : Text := if n < 10 then '0' :: Text.ofNat n else Text.ofNat n

/-- The time of day at a second since the beginning of 1970, from hours to seconds. -/
def timeAt (second : Int) : Text :=
  let ofDay := (second.emod 86400).toNat
  twoDigits (ofDay / 3600) ++ ":" ++ twoDigits (ofDay / 60 % 60) ++ ":" ++ twoDigits (ofDay % 60)

/-- The time of day that a clock shows, in whole seconds. -/
def timeOfDay (clock : Float) : Except ClockError Text :=
  match Double.ofFloat clock with
  | .nan => .error .noNumber
  | .infinite _ => .error .tooFar
  | double =>
    let second := double.floor
    if second < -9223372036854775808 || 9223372036854775808 ≤ second then .error .tooFar
    else if second < firstSecond || lastSecond < second then .error .noYear
    else if lastShortYearSecond < second then .error .longYear
    else .ok (timeAt second)

end Folio.Preview
