import Folio.Bindings
import Folio.Text.Blank

/-!
# Token substitution

Tokens are replaced wherever they stand, one token after another in the order of the rules, so a
later rule also sees what an earlier one has put in. If there is any rule, blanks at the end of the
text go.
-/

namespace Folio.Page

/-- Replace the tokens of a text. A rule is a token and its replacement. -/
def substitute (rules : Bindings) (text : Text) : Text :=
  match rules with
  | [] => text
  | _ :: _ =>
    Text.stripRight <| rules.foldl (fun text (token, replacement) =>
      text.replace token replacement) text

end Folio.Page
