import Folio.Text.Blank
import Folio.Text.Lines

/-!
# Page sections

A line with nothing but `[[page]]` ends a page. Every page of a text becomes a section; the
sections are numbered from one.
-/

namespace Folio.Page

/-- Does the line end a page? -/
def isPageBreak (line : Text) : Bool := line.strip == ("[[page]]" : Text)

def sectionOpening (number : Nat) : Text :=
  "<section class=\"page\" data-page=\"" ++ Text.ofNat number ++ "\">"

/-- The lines of the sections, from within the section with the given number to the end. -/
def sectionLines (number : Nat) : List Text → List Text
  | [] => ["", "</section>"]
  | line :: rest =>
    if isPageBreak line then
      "" :: "</section>" :: "" :: sectionOpening (number + 1) :: "" ::
        sectionLines (number + 1) rest
    else line :: sectionLines number rest

/-- Put the pages of a text into sections. -/
def addSections (text : Text) : Text :=
  Text.unlines (sectionOpening 1 :: "" :: sectionLines 1 text.lines) ++ "\n"

end Folio.Page
