import Folio.Text.Blank
import Folio.Text.Lines

/-!
# Titles

The title of a page is its first heading: a line of hashes, blanks and a text. One closing run of
hashes, set off by blanks, does not belong to the heading.
-/

namespace Folio.Page

/-- The text behind the hashes of a heading line. -/
def headingText? (line : Text) : Option Text :=
  let trimmed := line.strip
  let behind := trimmed.dropWhile (· == '#')
  if trimmed.head? = some '#' && behind.head?.any Text.isBlank then some (Text.strip behind)
  else none

def dropClosingHashes (heading : Text) : Text :=
  let body := (heading.reverse.dropWhile (· == '#')).reverse
  if body.getLast?.any Text.isBlank then Text.strip body else heading

/-- The title that a line gives, if it is a heading. -/
def titleOf? (line : Text) : Option Text :=
  (headingText? line).bind fun heading =>
    let title := Text.strip (dropClosingHashes heading)
    if title = [] then none else some title

/-- The title of a text: its first heading, or the default. -/
def title (default text : Text) : Text :=
  (text.lines.findSome? titleOf?).getD default

end Folio.Page
