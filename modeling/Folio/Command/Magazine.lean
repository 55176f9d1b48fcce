import Folio.Command.Environment

/-!
# The magazine command

Turns one Markdown file into one HTML page with a style sheet.
-/

namespace Folio.Command.Magazine

open Watch

def grammar : Grammar where
  program := "md2html.py"
  usage := "usage: md2html.py [-h] -i INPUT -o OUTPUT [-c CSS]
"
  explanation := "Magazine HTML Generator

options:
  -h, --help            show this help message and exit
  -i INPUT, --input INPUT
                        Input Markdown file
  -o OUTPUT, --output OUTPUT
                        Output HTML file
  -c CSS, --css CSS     CSS file to link
"
  options := [
    helpOption,
    { key := "input", names := ["-i", "--input"], kind := .value, required := true },
    { key := "output", names := ["-o", "--output"], kind := .value, required := true },
    { key := "css", names := ["-c", "--css"], kind := .value }]
  takesName := false

def page (css body : Text) : Text :=
  "<!DOCTYPE html>
<html lang=\"en\">
<head>
    <meta charset=\"UTF-8\">
    <title>Magazine Preview</title>
    <link rel=\"stylesheet\" href=\"" ++ css ++ "\">
</head>
<body>
" ++ body ++ "
</body>
</html>"

inductive Ending where
  /-- The page was written. -/
  | done
  /-- It gave up with an exit code. -/
  | exit (code : Nat)
  deriving DecidableEq, Repr

def routeOf : OptionValue → Run Route
  | .text text => return Route.parse text
  | .nothing => throw .noPath

/-- Turn a file into a page. Only a missing input is forgiven. -/
def convertFile (convert : Text → Text) (input output css : OptionValue) : Run Ending := do
  let source ← routeOf input
  let workspace ← get
  match workspace.tree.readText workspace.home source with
  | .error (.file ⟨.missing, _⟩) =>
    Run.printLine ("Error: " ++ input.shown ++ " not found.")
    return .exit 1
  | .error error => throw (Failure.ofRead error)
  | .ok text =>
    let target ← routeOf output
    let tree ← Run.ofExcept Failure.file
      (workspace.tree.writeBytes workspace.home target
        (Utf8.encode (page css.shown (convert text))))
    set { workspace with tree }
    Run.printLine
      ("[" ++ input.shown ++ "] -> [" ++ output.shown ++ "] using style [" ++ css.shown ++ "]")
    return .done

def run (environment : Environment) (texts : List Text) : Run Ending :=
  match grammar.parse texts with
  | .error .help => do
    modify fun workspace => { workspace with console := workspace.console.print grammar.help }
    return .exit 0
  | .error (.refused error) => do
    modify fun workspace =>
      { workspace with console := workspace.console.printError (grammar.complaint error) }
    return .exit 2
  | .ok arguments =>
    convertFile environment.convert (arguments.valueOr "input" "")
      (arguments.valueOr "output" "") (arguments.valueOr "css" "magazine.css")

end Folio.Command.Magazine
