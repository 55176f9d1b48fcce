import Folio.Command.Environment
import Folio.Settings

/-!
# The relay command

Runs two other commands one after the other, first the one that prepares the Markdown and then the
one that builds the pages, and makes sure that there are pages in the end. What the two commands do
is given as data.
-/

namespace Folio.Command.Relay

open Watch

/-- What a child command did: its exit code, what it printed, and the files it wrote. -/
structure Child where
  code : Int := 0
  out : Text := []
  err : Text := []
  writes : List (Location × ByteArray) := []

/-- The arguments of the relay command. The flag for watching is taken and not used. -/
def grammar : Grammar where
  program := "pipeline.py"
  usage := "usage: pipeline.py [-h] [--watch] [--src-dir SRC_DIR] [--build-dir BUILD_DIR]
                   [--css CSS] [--dev-js DEV_JS] [--template TEMPLATE]
                   [name]
"
  explanation := "Run preprocess then build.

positional arguments:
  name                  Optional single file base name (without .md).

options:
  -h, --help            show this help message and exit
  --watch               (Not implemented in this pipeline yet.)
  --src-dir SRC_DIR
  --build-dir BUILD_DIR
  --css CSS
  --dev-js DEV_JS
  --template TEMPLATE
"
  options := [
    helpOption,
    longFlag "watch",
    longOption "src-dir",
    longOption "build-dir",
    longOption "css",
    longOption "dev-js",
    longOption "template"]
  takesName := true

/-- The words of a command in one line. All of them have to be texts. -/
def joinWords (words : List OptionValue) : Except Failure Text :=
  match words.findIdx? (· == .nothing) with
  | some position => .error (.noWord position)
  | none => .ok (Text.join " " (words.map (·.shown)))

def runChild (label : Text) (command : List OptionValue) (child : Child) : Run Unit := do
  let line ← Run.ofExcept id (joinWords command)
  Run.printLine ("[pipeline] " ++ label ++ ": " ++ line)
  modify fun workspace =>
    { workspace with
      tree := child.writes.foldl (fun tree (location, content) => tree.place location content)
        workspace.tree
      console := (workspace.console.print child.out).printError child.err }
  if child.code ≠ 0 then throw (.childFailed label child.code)

/-- A command: the program that runs it, its script, a page name if there is one, and options with
their values. -/
def commandLine (interpreter script : Text) (name : Option Text)
    (options : List (Text × OptionValue)) : List OptionValue :=
  (interpreter :: script :: name.toList).map .text ++
    options.flatMap fun (option, value) => [.text option, value]

/-- The folders and the template, as paths from the root. -/
structure Places where
  source : Path
  prepared : Path
  site : Path
  template : Path
  deriving DecidableEq, Repr

/-- The value of an option, or of the setting it stands for. -/
def valueOf (arguments : Arguments) (key : Text) (setting : Setting) : OptionValue :=
  arguments.valueOr key setting.default

def placeOf : OptionValue → Run Path
  | .text text => Run.settlePath text
  | .nothing => throw .noPathInside

def placesOf (arguments : Arguments) : Run Places :=
  return {
    source := ← placeOf (valueOf arguments "src-dir" .sourceDir)
    prepared := ← Run.settlePath Setting.enhancedDir.default
    site := ← placeOf (valueOf arguments "build-dir" .siteDir)
    template := ← placeOf (valueOf arguments "template" .template) }

/-- The commands that are run: the one that prepares and the one that builds. The program that runs
them is given. -/
def commands (interpreter : Text) (home : Location) (arguments : Arguments) (places : Places) :
    List OptionValue × List OptionValue :=
  let script (name : Text) : Text := ((Path.ofLocation home).child name).text
  (commandLine interpreter (script "tools/preprocess.py") arguments.name? [
      ("--src-dir", .text places.source.text),
      ("--build-dir", .text places.prepared.text)],
    commandLine interpreter (script "tools/build.py") arguments.name? [
      ("--src-dir", .text places.prepared.text),
      ("--build-dir", .text places.site.text),
      ("--css", valueOf arguments "css" .css),
      ("--dev-js", valueOf arguments "dev-js" .devJs),
      ("--template", .text places.template.text)])

/-- The relay command. The children that are run are given in order. -/
def run {τ : Type} (interpreter : Text) (children : List Child) (texts : List Text) :
    Run (Progress τ) :=
  withArguments grammar texts fun arguments => do
    let home := (← get).home
    let places ← placesOf arguments
    let (prepare, build) := commands interpreter home arguments places
    tryCatch (do
      runChild "preprocess" prepare (children.head?.getD {})
      runChild "build" build (children.tail.head?.getD {})
      let workspace ← get
      let pages ← Run.ofExcept Failure.file (workspace.tree.list home places.site ".html")
      if pages = [] then throw (.noPages places.site.text)
      return .finished 0)
      fun failure => do
        Run.printErrorLine ("[pipeline] ERROR: " ++ failure.message)
        return .finished 1

end Folio.Command.Relay
