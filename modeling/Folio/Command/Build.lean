import Folio.Build.Plan
import Folio.Command.Environment

/-!
# The build command

Reads the arguments and the settings, carries the plan out once and, if asked to, again whenever a
Markdown file is saved.

The exit code is 2 if there is no plan, 1 if a failure ended the run or failures were reported
while enhancing, and 0 otherwise. A watching build has the exit code 0.
-/

namespace Folio.Command

open Watch

namespace Build

open Folio.Build Directive

def settingOption (setting : Setting) : Text :=
  match setting with
  | .sourceDir => "src-dir"
  | .enhancedDir => "preprocess-dir"
  | .siteDir => "build-dir"
  | .css => "css"
  | .devJs => "dev-js"
  | .template => "template"

/-- The options for the config file and the settings, in the order in which they are listed. -/
def settingOptions : List OptionSpec :=
  longOption "config" ::
    [Setting.sourceDir, .enhancedDir, .siteDir, .css, .devJs, .template].map fun setting =>
      longOption (settingOption setting)

def grammar : Grammar where
  program := "build.py"
  usage := "usage: build.py [-h] [-w] [-v] [-p | -r] [-c] [-e] [--config CONFIG]
                [--src-dir SRC_DIR] [--preprocess-dir PREPROCESS_DIR]
                [--build-dir BUILD_DIR] [--css CSS] [--dev-js DEV_JS]
                [--template TEMPLATE]
                [name]
"
  explanation := "Build pipeline: preprocess and/or render HTML.

positional arguments:
  name                  Optional single file base name (without .md).

options:
  -h, --help            show this help message and exit
  -w, --watch           Watch for changes and rebuild.
  -v, --verbose         Verbose output.
  -p, --preprocess-only
                        Run preprocess step only.
  -r, --render-only     Run render step only.
  -c, --continue-on-error
                        Continue after preprocess/directive errors where
                        possible.
  -e, --embed-errors    Embed preprocess/directive errors into enhanced
                        Markdown output.
  --config CONFIG       Path to config file.
  --src-dir SRC_DIR     Override source directory.
  --preprocess-dir PREPROCESS_DIR
                        Override preprocess output directory.
  --build-dir BUILD_DIR
                        Override HTML output directory.
  --css CSS             Override CSS href.
  --dev-js DEV_JS       Override dev reload JS href.
  --template TEMPLATE   Override HTML template path.
"
  options := [
    helpOption,
    { key := "watch", names := ["-w", "--watch"], kind := .flag },
    { key := "verbose", names := ["-v", "--verbose"], kind := .flag },
    { key := "preprocess-only", names := ["-p", "--preprocess-only"], kind := .flag,
      rivals := ["render-only"] },
    { key := "render-only", names := ["-r", "--render-only"], kind := .flag,
      rivals := ["preprocess-only"] },
    { key := "continue-on-error", names := ["-c", "--continue-on-error"], kind := .flag },
    { key := "embed-errors", names := ["-e", "--embed-errors"], kind := .flag }] ++ settingOptions
  takesName := true

/-- The stages that the arguments ask for. -/
def stagesOf (arguments : Arguments) : Stages :=
  if arguments.has "render-only" then .renderOnly
  else if arguments.has "preprocess-only" then .enhanceOnly
  else .both

/-- What the arguments ask of a build. -/
def requestOf (arguments : Arguments) : Request where
  name := arguments.name
  stages := stagesOf arguments
  mode :=
    if arguments.has "continue-on-error" then .report (arguments.has "embed-errors") else .strict
  config := (arguments.valueOr "config" "tools/build.conf").text?
  given := fun setting => (arguments.value? (settingOption setting)).bind (·.text?)

def complain (message : Text) : Run Unit := Run.report { level := .error, message }

def refusalMessage : Refusal → Text
  | .config failure => "loading config: " ++ failure.message
  | .setting error => error.message
  | .noSource path => "source directory does not exist: " ++ path.text

/-- Carry out a plan and report how many failures were reported before. -/
def carryOut (plan : Plan) (convert : Text → Text) : Run Nat := do
  let errors ← plan.run convert
  if errors ≠ 0 then complain (Text.ofNat errors ++ " error(s) during preprocess")
  return errors

/-- What a watching build does at a change. If failures are reported, one that ends the run is
reported too, and the build goes on watching. -/
def rebuild (plan : Plan) (convert : Text → Text) : Run Unit :=
  match plan.mode with
  | .strict => discard (carryOut plan convert)
  | .report _ =>
    tryCatch (discard (carryOut plan convert)) fun failure => complain failure.message

def watch {τ : Type} (environment : Environment) (start : Debounce τ) (plan : Plan) :
    Run (Progress τ) := do
  unless environment.watching = .ready do throw .watcherMissing
  Run.report {
    level := .info,
    message := "[watch] Watching " ++ plan.watched.text ++ " for .md changes..." }
  return .watching {
    folder := plan.watched
    trigger := .debounced start
    job := rebuild plan environment.convert }

/-- Carry out a plan once; then watch or finish. -/
def execute {τ : Type} (environment : Environment) (start : Debounce τ) (watching : Bool)
    (plan : Plan) : Run (Progress τ) := do
  let outcome ← tryCatch (some <$> carryOut plan environment.convert) fun failure => do
    complain failure.message
    return none
  match outcome with
  | none => return .finished 1
  | some errors =>
    if watching then watch environment start plan
    else return .finished (if errors = 0 then 0 else 1)

/-- The build command. The debounce is that of a watching build before its first run. -/
def run {τ : Type} (environment : Environment) (start : Debounce τ) (texts : List Text) :
    Run (Progress τ) :=
  withWatching environment <| withArguments grammar texts fun arguments => do
    modify fun workspace =>
      { workspace with
        console := { workspace.console with verbose := arguments.has "verbose" } }
    match ← (requestOf arguments).settle with
    | .error refusal =>
      complain (refusalMessage refusal)
      return .finished 2
    | .ok plan => execute environment start (arguments.has "watch") plan

end Build

end Folio.Command
