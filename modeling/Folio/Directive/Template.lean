import Folio.Bindings
import Folio.Directive.Error

/-!
# Templates

A template is a text with slots `${name}`, where a name is a letter or underscore followed by
letters, digits and underscores (of ASCII). Filling a template replaces all slots in one pass: what
a slot is filled with is not looked at again.
-/

namespace Folio.Directive

inductive Piece where
  | literal (c : Char)
  | slot (name : Text)
  deriving DecidableEq, Repr

/-- A character that can begin the name of a slot. -/
def isNameStart (c : Char) : Bool := c.isAlpha || c == '_'

/-- A character that can continue the name of a slot. -/
def isNameChar (c : Char) : Bool := isNameStart c || c.isDigit

/-- The name of the slot that stands at the beginning of a text. -/
def slotAt? (text : Text) : Option Text :=
  match text with
  | '$' :: '{' :: c :: rest =>
    let name := c :: rest.takeWhile isNameChar
    if isNameStart c && (rest.dropWhile isNameChar).head? == some '}' then some name else none
  | _ => none

/-- The pieces of a text, after dropping the characters that a slot found earlier still covers. -/
def piecesFrom : (covered : Nat) → Text → List Piece
  | _, [] => []
  | covered + 1, _ :: rest => piecesFrom covered rest
  | 0, c :: rest =>
    match slotAt? (c :: rest) with
    | some name => .slot name :: piecesFrom (name.length + 2) rest
    | none => .literal c :: piecesFrom 0 rest

def pieces (template : Text) : List Piece := piecesFrom 0 template

/-- The names of the slots among the pieces, in order. -/
def slotNames (pieces : List Piece) : List Text :=
  pieces.filterMap fun
    | .literal _ => none
    | .slot name => some name

/-- What a piece becomes; an unknown slot becomes nothing. -/
def Piece.filled (bindings : Bindings) : Piece → Text
  | .literal c => [c]
  | .slot name => (bindings.get? name).getD []

/-- Fill the slots of a template. It is refused if some slots have no value; they are then listed
in order, each once. -/
def fill (template : Text) (bindings : Bindings) : Except DirectiveError Text :=
  let ps := pieces template
  let unknown := Text.sortedSet ((slotNames ps).filter fun name => (bindings.get? name).isNone)
  if unknown ≠ [] then .error (.unknownSlots unknown)
  else .ok (ps.flatMap (·.filled bindings))

end Folio.Directive
