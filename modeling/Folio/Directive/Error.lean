import Folio.Text.Basic
import Folio.Text.Quoted

/-!
# What can be wrong with a directive

The causes for which a directive is refused, and their wording. A message is shown behind the place
where the directive stands; the place is not part of the cause.
-/

namespace Folio

/-- Why a directive, its signature or its arguments are refused. -/
inductive DirectiveError where
  /-- An item of a comma-separated list is blank. -/
  | emptyItem
  /-- A quoted stretch is not closed. -/
  | unclosedQuote
  /-- The text does not stand between double brackets. -/
  | notDirective (text : Text)
  /-- There is nothing between the brackets. -/
  | emptyDirective (text : Text)
  /-- The name in a signature is empty. -/
  | emptySignatureName (signature : Text)
  /-- A parameter has no name. -/
  | emptyParameter (signature : Text)
  /-- A parameter is declared twice. -/
  | duplicateParameter (name signature : Text)
  /-- An optional parameter has an empty default. -/
  | emptyDefault (name signature : Text)
  /-- A required parameter follows an optional one. -/
  | requiredAfterOptional (name signature : Text)
  /-- The name in a call is empty. -/
  | emptyCallName (call : Text)
  /-- A named argument has no name. -/
  | emptyArgumentName (call : Text)
  /-- A named argument has no value. -/
  | emptyArgumentValue (name call : Text)
  /-- An argument is named twice. -/
  | duplicateArgument (name call : Text)
  /-- Arguments are named that the directive does not have. -/
  | unknownArguments (directive : Text) (names : List Text)
  /-- More values are given by position than parameters are left for them. -/
  | tooManyArguments (directive : Text) (given declared : Nat)
  /-- Required parameters have no value. -/
  | missingArguments (directive : Text) (names : List Text)
  /-- The template has slots that are no parameters. -/
  | unknownSlots (names : List Text)
  deriving DecidableEq, Repr

namespace DirectiveError

def message : DirectiveError → Text
  | emptyItem => "empty token in comma-separated list"
  | unclosedQuote => "unterminated double quote in list"
  | notDirective text => "not a directive: " ++ text.quoted
  | emptyDirective text => "empty directive: " ++ text.quoted
  | emptySignatureName signature => "empty directive name in " ++ signature.quoted
  | emptyParameter signature => "empty parameter name in " ++ signature.quoted
  | duplicateParameter name signature =>
    "duplicate parameter " ++ name.quoted ++ " in " ++ signature.quoted
  | emptyDefault name signature =>
    "empty default for optional parameter " ++ name.quoted ++ " in " ++ signature.quoted
  | requiredAfterOptional name signature =>
    "required parameter " ++ name.quoted ++ " cannot appear after optional parameters in " ++
      signature.quoted
  | emptyCallName call => "empty directive name in [[" ++ call ++ "]]"
  | emptyArgumentName call => "empty named-arg key in [[" ++ call ++ "]]"
  | emptyArgumentValue name call =>
    "empty value for named arg " ++ name.quoted ++ " in [[" ++ call ++ "]]"
  | duplicateArgument name call =>
    "duplicate named arg " ++ name.quoted ++ " in [[" ++ call ++ "]]"
  | unknownArguments directive names =>
    "unknown named arg(s) for " ++ directive ++ ": " ++ Text.join ", " names
  | tooManyArguments directive given declared =>
    "too many positional args for " ++ directive ++ " (got " ++ Text.ofNat given ++
      ", signature has " ++ Text.ofNat declared ++ ")"
  | missingArguments directive names =>
    "missing required arg(s) for " ++ directive ++ ": " ++ Text.join ", " names
  | unknownSlots names =>
    "template references unknown placeholder(s): " ++ Text.join ", " names

end DirectiveError

end Folio
