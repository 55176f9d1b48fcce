import Folio.Directive.Resolution
import Folio.Directive.Template
import Folio.Text.Lines

/-!
# Expanding directives

A directive counts only if it stands alone on its line. A line with a call of a defined directive
is replaced by the lines of the filled template; every other line is kept. What a line becomes
(`lineOutcome`) depends on that line alone; the error mode decides what is done about the lines
that fail.
-/

namespace Folio.Directive

/-- The directive that stands alone on a line, from its opening to its closing brackets. -/
def wholeLine? (line : Text) : Option Text :=
  let trimmed := line.strip
  let inner := (trimmed.drop 2).take (trimmed.length - 4)
  if ("[[" : Text).isPrefixOf trimmed && ("]]" : Text).isSuffixOf trimmed &&
      inner ≠ [] && ']' ∉ inner then some trimmed
  else none

/-- What a directive is replaced by; nothing if it is not defined. -/
def expandCall (definitions : List Definition) (directive : Text) :
    Except DirectiveError (Option Text) := do
  let inner ← unbracket directive
  let call ← Call.parse inner
  match definitions.find? (·.name == call.name) with
  | none => return none
  | some definition =>
    let bindings ← definition.resolve call
    return some (← fill definition.template bindings)

inductive LineOutcome where
  /-- The line has no directive, or one that is not defined. -/
  | kept
  /-- The line is replaced. -/
  | replaced (lines : List Text)
  /-- The directive on the line is refused. -/
  | failed (cause : DirectiveError)
  deriving DecidableEq, Repr

def lineOutcome (definitions : List Definition) (line : Text) : LineOutcome :=
  match wholeLine? line with
  | none => .kept
  | some directive =>
    match expandCall definitions directive with
    | .ok none => .kept
    | .ok (some text) => .replaced text.lines
    | .error cause => .failed cause

/-- What is done about lines that fail. -/
inductive ErrorMode where
  /-- The first failure is the result. -/
  | strict
  /-- Failures are reported and their lines kept; if `embed` is set, a note on the failure is put
  before the line. -/
  | report (embed : Bool)
  deriving DecidableEq, Repr

/-- A failure and the place where it arose. -/
structure PlacedError where
  place : Text
  cause : DirectiveError
  deriving DecidableEq, Repr

/-- The wording of a failure, behind its place. -/
def PlacedError.message (error : PlacedError) : Text :=
  error.place ++ ": " ++ error.cause.message

/-- The note that is put before a line that failed. -/
def embeddedNote (place message : Text) : Text :=
  Text.unlines [
    "> **BUILD ERROR**",
    "> **Where:** " ++ place,
    "> **Message:** " ++ Text.strip (Text.join " " message.lines),
    "> (directive left unchanged)",
    ""]

/-- The place of a line, counted from one, of a source or of a text without one. -/
def placeOf (source : Option Text) (number : Nat) : Text :=
  match source with
  | some source => source ++ ":" ++ Text.ofNat number
  | none => "line " ++ Text.ofNat number

/-- A line with its place and its outcome. -/
structure ExaminedLine where
  place : Text
  line : Text
  outcome : LineOutcome
  deriving DecidableEq, Repr

/-- The failure of a line, if it failed. -/
def ExaminedLine.error? (examined : ExaminedLine) : Option PlacedError :=
  match examined.outcome with
  | .failed cause => some ⟨examined.place, cause⟩
  | _ => none

/-- The lines that take the place of a line. -/
def ExaminedLine.output (mode : ErrorMode) (examined : ExaminedLine) : List Text :=
  match examined.outcome with
  | .kept => [examined.line]
  | .replaced lines => lines
  | .failed cause =>
    let error : PlacedError := ⟨examined.place, cause⟩
    match mode with
    | .report true => (embeddedNote error.place error.message).lines ++ [examined.line]
    | _ => [examined.line]

/-- The lines of a text with their places and outcomes. -/
def examine (definitions : List Definition) (source : Option Text) (text : Text) :
    List ExaminedLine :=
  (text.lines.zipIdx 1).map fun (line, number) =>
    ⟨placeOf source number, line, lineOutcome definitions line⟩

/-- The text after expansion and the failures in it, in the order of their lines. -/
structure Expansion where
  text : Text
  errors : List PlacedError
  deriving DecidableEq, Repr

/-- Expand the directives of a text. The result ends with a line feed if the text does. -/
def expand (definitions : List Definition) (source : Option Text) (mode : ErrorMode)
    (text : Text) : Except PlacedError Expansion :=
  let examined := examine definitions source text
  let errors := examined.filterMap (·.error?)
  let ending : Text := if text.getLast? = some '\n' then "\n" else ""
  match mode, errors with
  | .strict, error :: _ => .error error
  | _, _ => .ok ⟨Text.unlines (examined.flatMap (·.output mode)) ++ ending, errors⟩

end Folio.Directive
