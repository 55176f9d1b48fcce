import Folio.Command.Build

/-!
# The plain build command

A build with fewer options. A failure that ends the run is printed, but the exit code is 0 all the
same; only a plan that is refused, or a watch that cannot start, gives the exit code 2.
-/

namespace Folio.Command.PlainBuild

open Folio.Build Watch

/-- The arguments of the plain build command. -/
def grammar : Grammar where
  program := "build.py"
  usage := "usage: build.py [-h] [--watch] [--preprocess-only | --render-only]
                [--config CONFIG] [--src-dir SRC_DIR]
                [--preprocess-dir PREPROCESS_DIR] [--build-dir BUILD_DIR]
                [--css CSS] [--dev-js DEV_JS] [--template TEMPLATE]
                [name]
"
  explanation := "Build pipeline: preprocess and/or render HTML.

positional arguments:
  name                  Optional single file base name (without .md).

options:
  -h, --help            show this help message and exit
  --watch               Watch for changes and rebuild.
  --preprocess-only     Run preprocess step only.
  --render-only         Run render step only.
  --config CONFIG       Path to config file.
  --src-dir SRC_DIR     Override source directory.
  --preprocess-dir PREPROCESS_DIR
                        Override preprocess output directory.
  --build-dir BUILD_DIR
                        Override HTML output directory.
  --css CSS             Override CSS href.
  --dev-js DEV_JS       Override dev reload JS href.
  --template TEMPLATE   Override HTML template path.
"
  options := [
    helpOption,
    longFlag "watch",
    { longFlag "preprocess-only" with rivals := ["render-only"] },
    { longFlag "render-only" with rivals := ["preprocess-only"] }] ++ Build.settingOptions
  takesName := true

def refusalMessage : Refusal → Text
  | .config failure => "[build] ERROR loading config: " ++ failure.message
  | .setting error => "[build] ERROR: " ++ error.message
  | .noSource path => "[build] ERROR: source directory does not exist: " ++ path.text

/-- Carry out a plan; print a failure that ends the run. -/
def carryOut (plan : Plan) (convert : Text → Text) : Run Unit :=
  tryCatch (discard (plan.run convert)) fun failure =>
    Run.printErrorLine ("[build] ERROR: " ++ failure.message)

def watch {τ : Type} (environment : Environment) (start : Debounce τ) (plan : Plan) :
    Run (Progress τ) := do
  if environment.watching = .ready then
    Run.report {
      level := .info,
      message := "[watch] Watching " ++ plan.watched.text ++ " for .md changes..." }
    return .watching {
      folder := plan.watched
      trigger := .debounced start
      job := carryOut plan environment.convert }
  else
    Run.printErrorLine ("[watch] ERROR: " ++ Failure.watcherMissing.message)
    return .finished 2

def run {τ : Type} (environment : Environment) (start : Debounce τ) (texts : List Text) :
    Run (Progress τ) :=
  withWatching environment <| withArguments grammar texts fun arguments => do
    match ← (Build.requestOf arguments).settle with
    | .error refusal =>
      Run.printErrorLine (refusalMessage refusal)
      return .finished 2
    | .ok plan =>
      carryOut plan environment.convert
      if arguments.has "watch" then watch environment start plan else return .finished 0

end Folio.Command.PlainBuild
