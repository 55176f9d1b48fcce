import Folio.Directive.Error
import Folio.Text.Blank

/-!
# Comma-separated items

The text between the brackets of a directive is a list of items separated by commas. A stretch
between double quotes belongs to its item as it is, commas included; inside it a backslash makes
the next double quote or backslash literal and is kept before any other character. Items are
trimmed, and none may be blank.
-/

namespace Folio.Directive

inductive Quotation where
  | outside
  | quoted
  | escaped
  deriving DecidableEq, Repr

/-- What a character behind a backslash contributes to its item. -/
def unescape (c : Char) : Text :=
  if c = '"' || c = '\\' then [c] else ['\\', c]

/-- The finished item: trimmed, and refused if nothing is left. -/
def closeItem (item : Text) : Except DirectiveError Text :=
  let trimmed := item.strip
  if trimmed = [] then .error .emptyItem else .ok trimmed

/-- The items of the rest of a text, where `begun` is what has been read of the item at hand, last
character first. A blank item is refused at the comma that ends it, before anything behind that
comma is looked at. -/
def scanItems : Quotation → (begun : Text) → Text → Except DirectiveError (List Text)
  | .outside, begun, [] => (closeItem begun.reverse).map ([·])
  | .quoted, _, [] => .error .unclosedQuote
  | .escaped, _, [] => .error .unclosedQuote
  | .outside, begun, c :: rest =>
    if c = '"' then scanItems .quoted begun rest
    else if c = ',' then
      match closeItem begun.reverse with
      | .error e => .error e
      | .ok closed => (scanItems .outside [] rest).map (closed :: ·)
    else scanItems .outside (c :: begun) rest
  | .quoted, begun, c :: rest =>
    if c = '\\' then scanItems .escaped begun rest
    else if c = '"' then scanItems .outside begun rest
    else scanItems .quoted (c :: begun) rest
  | .escaped, begun, c :: rest => scanItems .quoted ((unescape c).reverse ++ begun) rest

def items (text : Text) : Except DirectiveError (List Text) :=
  scanItems .outside [] text

/-- The text between the outer double brackets, trimmed. -/
def unbracket (text : Text) : Except DirectiveError Text :=
  let trimmed := text.strip
  if ("[[" : Text).isPrefixOf trimmed && ("]]" : Text).isSuffixOf trimmed then
    let inner := Text.strip ((trimmed.drop 2).take (trimmed.length - 4))
    if inner = [] then .error (.emptyDirective text) else .ok inner
  else .error (.notDirective text)

end Folio.Directive
