import Folio.Number.Numeral
import Folio.Text.Utf8

/-!
# Queries

The part of an address behind the question mark: names and values, joined by `=` and separated by
`&`, with `+` for a space and `%` before the two hexadecimal digits of a byte.
-/

namespace Folio.Reload

def hexByte? (high low : Char) : Option UInt8 :=
  (Numeral.whole? 16 [high, low]).map Nat.toUInt8

/-- The bytes that a component stands for. -/
def componentBytes : Text → List UInt8
  | [] => []
  | '+' :: rest => 0x20 :: componentBytes rest
  | '%' :: high :: low :: rest =>
    match hexByte? high low with
    | some byte => byte :: componentBytes rest
    | none => 0x25 :: componentBytes (high :: low :: rest)
  | c :: rest => (Utf8.encode [c]).toList ++ componentBytes rest

/-- The text that a component stands for. -/
def component (text : Text) : Text := Utf8.decodeLossy (componentBytes text)

/-- The names and values of a query, in order. A question mark in front is dropped. -/
def queryPairs (query : Text) : List (Text × Text) :=
  let body := if query.head? = some '?' then query.drop 1 else query
  ((Text.splitOn '&' body).filter (· ≠ [])).map fun part =>
    match Text.cutAt part "=" with
    | some (name, value) => (component name, component value)
    | none => (component part, [])

/-- The first value of a name in a query. -/
def queryValue? (query name : Text) : Option Text := (queryPairs query).lookup name

end Folio.Reload
