import Folio.Text.Basic
import Folio.Text.Printable

/-!
# Quoted texts

Messages show a text between quotes. Single quotes are used unless the text has a single quote and
no double quote. The backslash, the quote in use and the unprintable characters are escaped.
-/

namespace Folio.Text

/-- The hexadecimal numeral of a number, in lower case, padded with zeros to a width. -/
def hex (width n : Nat) : Text :=
  let digits := Nat.toDigits 16 n
  List.replicate (width - digits.length) '0' ++ digits

/-- The quote that stands around a text. -/
def quoteMark (text : Text) : Char :=
  if text.contains '\x27' && !text.contains '"' then '"' else '\x27'

/-- A character between the given quotes. -/
def escapeChar (quote c : Char) : Text :=
  if c = quote || c = '\\' then ['\\', c]
  else if c = '\n' then "\\n"
  else if c = '\r' then "\\r"
  else if c = '\t' then "\\t"
  else if isPrintable c then [c]
  else if c.toNat < 0x100 then "\\x" ++ hex 2 c.toNat
  else if c.toNat < 0x10000 then "\\u" ++ hex 4 c.toNat
  else "\\U" ++ hex 8 c.toNat

def quoted (text : Text) : Text :=
  let quote := quoteMark text
  quote :: text.flatMap (escapeChar quote) ++ [quote]

end Folio.Text
