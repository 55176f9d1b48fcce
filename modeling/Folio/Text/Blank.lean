import Folio.Text.Basic

/-!
# Blank characters

The characters that count as white space at the ends of a text, and the trimming functions.
The zero-width space and the byte order mark are not blank.
-/

namespace Folio.Text

/-- A blank character. -/
def isBlank (c : Char) : Bool :=
  let n := c.toNat
  (0x09 ≤ n && n ≤ 0x0D) || (0x1C ≤ n && n ≤ 0x20) || n == 0x85 || n == 0xA0 || n == 0x1680 ||
    (0x2000 ≤ n && n ≤ 0x200A) || n == 0x2028 || n == 0x2029 || n == 0x202F || n == 0x205F ||
    n == 0x3000

def stripLeft (text : Text) : Text := text.dropWhile isBlank

def stripRight (text : Text) : Text := (text.reverse.dropWhile isBlank).reverse

/-- The text without blanks at either end. -/
def strip (text : Text) : Text := stripRight (stripLeft text)

end Folio.Text
