import Folio.Bindings
import Folio.Directive.Signature
import Folio.Text.Lines

/-!
# The definitions file

Each definition is a line `[[signature]] = template`. The template may be the rest of the line, a
block of lines closed by a line of three backticks, or the content of another file. Blank lines and
lines that begin with `#` between definitions are skipped.

A directive without parameters is also a token: `[[name]]` stands for its template anywhere in a
text.
-/

namespace Folio.Directive

inductive DefinitionError where
  /-- A line has no closing brackets. -/
  | noClosing (line : Text)
  /-- There is no equals sign behind the brackets. -/
  | noEquals (line : Text)
  /-- There is nothing behind the equals sign. -/
  | noTemplate (signature : Text)
  /-- The signature is refused. -/
  | badSignature (cause : DirectiveError)
  /-- A block of lines is not closed. -/
  | unclosedBlock (signature : Text)
  /-- No file is named. -/
  | noIncludePath (signature : Text)
  /-- The named file is not there. -/
  | includeMissing (signature path : Text)
  /-- A directive is defined twice. -/
  | duplicateName (name : Text)
  /-- A token is defined twice. -/
  | duplicateToken (token : Text)
  deriving DecidableEq, Repr

def DefinitionError.message : DefinitionError → Text
  | noClosing line => "expected directive LHS ending with ']]': " ++ line.quoted
  | noEquals line => "expected '=' after directive LHS: " ++ line.quoted
  | noTemplate signature => "empty RHS for " ++ signature.quoted
  | badSignature cause => cause.message
  | unclosedBlock signature =>
    "unterminated fenced block for " ++ signature.quoted ++ " (expected closing line ```)"
  | noIncludePath signature => "@file: requires a path for " ++ signature.quoted
  | includeMissing signature path =>
    "include file not found for " ++ signature.quoted ++ ": " ++ path
  | duplicateName name => "duplicate directive name " ++ name.quoted
  | duplicateToken token => "duplicate token " ++ token.quoted

/-- Cut a definition into its signature and what is assigned to it. -/
def splitAssignment (line : Text) : Except DefinitionError (Text × Text) :=
  match line.cutAt "]]" with
  | none => .error (.noClosing line)
  | some (before, after) =>
    let signature := Text.strip (before ++ "]]")
    match after.stripLeft with
    | '=' :: rest =>
      let template := Text.strip rest
      if template = [] then .error (.noTemplate signature) else .ok (signature, template)
    | _ => .error (.noEquals line)

/-- The directives and the tokens of a definitions file, in its order. -/
structure Definitions where
  directives : List Definition := []
  tokens : Bindings := []
  deriving DecidableEq, Repr

/-- The token of a directive without parameters. -/
def tokenOf (name : Text) : Text := "[[" ++ name ++ "]]"

def Definitions.add (definitions : Definitions) (definition : Definition) :
    Except DefinitionError Definitions :=
  let token := tokenOf definition.name
  let directives := definitions.directives ++ [definition]
  if definitions.directives.any (·.name == definition.name) then
    .error (.duplicateName definition.name)
  else if definition.parameters ≠ [] then .ok { definitions with directives }
  else if (definitions.tokens.get? token).isSome then .error (.duplicateToken token)
  else .ok ⟨directives, definitions.tokens ++ [(token, definition.template)]⟩

/-- What a definition takes its template from. -/
inductive TemplateSource where
  /-- The rest of the line. -/
  | inline (template : Text)
  /-- The lines up to the closing one. -/
  | block
  /-- A file, given by the path as written. -/
  | include (path : Text)
  deriving DecidableEq, Repr

/-- What the text behind the equals sign asks for. -/
def TemplateSource.parse (text : Text) : TemplateSource :=
  let marker : Text := "@file:"
  if ("```" : Text).isPrefixOf text then .block
  else if marker.isPrefixOf text then .include (Text.strip (text.drop marker.length))
  else .inline text

/-- A block that has been opened: where, under which signature, and its lines so far. -/
structure OpenBlock where
  place : Text
  written : Text
  signature : Signature
  lines : List Text
  deriving DecidableEq, Repr

/-- Why an included file gives no template. -/
inductive IncludeError (ε : Type) where
  /-- The file is not there; it was looked for at this path. -/
  | missing (path : Text)
  /-- The file cannot be read. -/
  | unreadable (error : ε)
  deriving DecidableEq, Repr

/-- Why reading definitions failed: at a place for a cause, or in reading an included file. -/
inductive DefinitionsFailure (ε : Type) where
  | refused (place : Text) (cause : DefinitionError)
  | unreadable (error : ε)
  deriving DecidableEq, Repr

section Reading

variable {ε : Type} (load : Text → Except (IncludeError ε) Text)

/-- Give a result of reading its place. -/
def atPlace {α : Type} (place : Text) (result : Except DefinitionError α) :
    Except (DefinitionsFailure ε) α :=
  result.mapError (.refused place)

def loadTemplate (place written path : Text) : Except (DefinitionsFailure ε) Text :=
  if path = [] then .error (.refused place (.noIncludePath written))
  else
    match load path with
    | .ok template => .ok template
    | .error (.missing path) => .error (.refused place (.includeMissing written path))
    | .error (.unreadable error) => .error (.unreadable error)

/-- What a line outside blocks does to the definitions: it may add one, or open a block. -/
def readLine (place line : Text) (definitions : Definitions) :
    Except (DefinitionsFailure ε) (Definitions × Option OpenBlock) := do
  let trimmed := line.strip
  if trimmed = [] || trimmed.head? = some '#' then return (definitions, none)
  let (written, assigned) ← atPlace place (splitAssignment trimmed)
  let signature ← atPlace place ((Signature.parse written).mapError .badSignature)
  match TemplateSource.parse assigned with
  | .block => return (definitions, some ⟨place, written, signature, []⟩)
  | .include path =>
    let template ← loadTemplate load place written path
    return (← atPlace place (definitions.add { signature with template }), none)
  | .inline template =>
    return (← atPlace place (definitions.add { signature with template }), none)

/-- Read the lines of a definitions file from the given line number on. -/
def readLines (source : Text) :
    (number : Nat) → Option OpenBlock → Definitions → List Text →
      Except (DefinitionsFailure ε) Definitions
  | _, none, definitions, [] => .ok definitions
  | _, some block, _, [] => .error (.refused block.place (.unclosedBlock block.written))
  | number, some block, definitions, line :: rest =>
    if line = ("```" : Text) then do
      let template := Text.unlines block.lines
      let definitions ← atPlace block.place (definitions.add { block.signature with template })
      readLines source (number + 1) none definitions rest
    else readLines source (number + 1) (some { block with lines := block.lines ++ [line] })
      definitions rest
  | number, none, definitions, line :: rest => do
    let (definitions, block) ← readLine load (source ++ ":" ++ Text.ofNat number) line definitions
    readLines source (number + 1) block definitions rest

/-- Read a definitions file. Its path as shown in places, and how included files are read, are
given. -/
def Definitions.parse (source text : Text) : Except (DefinitionsFailure ε) Definitions :=
  readLines load source 1 none {} text.lines

end Reading

end Folio.Directive
