import Folio.Text.Basic

/-!
# Documents

A document is made from a template of which four marks are replaced: title, style sheet, reload
script and body. The marks are replaced one kind after another, in that order.
-/

namespace Folio.Page

/-- A character as it is written in the text of a document. -/
def escapeMarkupChar (c : Char) : Text :=
  if c = '&' then "&amp;"
  else if c = '<' then "&lt;"
  else if c = '>' then "&gt;"
  else if c = '"' then "&quot;"
  else if c = '\x27' then "&#x27;"
  else [c]

/-- A text with the characters escaped that have a meaning in markup. -/
def escapeMarkup (text : Text) : Text := text.flatMap escapeMarkupChar

/-- What is set into a template. -/
structure Document where
  title : Text
  css : Text
  devJs : Text
  body : Text
  deriving DecidableEq, Repr

/-- The mark of a field in a template. -/
def mark (field : Text) : Text := "\x7b\x7b" ++ field ++ "\x7d\x7d"

def Document.render (document : Document) (template : Text) : Text :=
  (((template.replace (mark "title") (escapeMarkup document.title)).replace
    (mark "css") document.css).replace
    (mark "dev_js") document.devJs).replace
    (mark "body") document.body

end Folio.Page
