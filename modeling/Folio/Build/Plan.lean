import Folio.Build.Enhance
import Folio.Build.Render

/-!
# Plans

Before a build does anything, its settings are read, layered and checked. What remains is a plan:
the folders, the template and what is to be done. A plan can be carried out again and again.
-/

namespace Folio.Build

open Directive

def configAt (tree : FileTree) (home : Location) (path : Path) : Except Failure Bindings :=
  match tree.lookAt home path.route with
  | .error error => .error (.file error)
  | .ok none => .error (.configMissing path.text)
  | .ok (some _) =>
    match tree.readText home path.route with
    | .error error => .error (Failure.ofRead error)
    | .ok text => (readConfig path.text text).mapError .setting

/-- The settings that a config file makes. -/
def settingsAt (tree : FileTree) (home : Location) (path : Path) : Except Failure Settings := do
  let config ← configAt tree home path
  (Settings.ofConfig path.text config).mapError .setting

inductive Stages where
  | both
  | enhanceOnly
  | renderOnly
  deriving DecidableEq, Repr

def Stages.enhances (stages : Stages) : Bool := stages ≠ .renderOnly

def Stages.renders (stages : Stages) : Bool := stages ≠ .enhanceOnly

/-- What is asked of a build. -/
structure Request where
  /-- The only page to build, by its name without ending; the empty name means all. -/
  name : Option Text := none
  stages : Stages := .both
  mode : ErrorMode := .strict
  /-- The path of the config file, as written; none if its option has no value. -/
  config : Option Text := some "tools/build.conf"
  /-- The settings given on the command line. -/
  given : Setting → Option Text := fun _ => none

/-- A build with its settings known. -/
structure Plan where
  name : Option Text
  stages : Stages
  mode : ErrorMode
  source : Path
  enhanced : Path
  site : Path
  shell : Shell
  deriving DecidableEq, Repr

inductive Refusal where
  | config (failure : Failure)
  | setting (error : SettingError)
  | noSource (path : Path)
  deriving DecidableEq, Repr

/-- Read, layer and check the settings of a build. -/
def Request.settings (request : Request) (tree : FileTree) (home : Location) :
    Except Refusal Settings := do
  let written ← request.config.elim (.error (.config .noPath)) .ok
  let config ← (Path.settle home (Path.ofLocation home) written).mapError
    (.config ∘ Failure.file)
  let base ← (settingsAt tree home config).mapError .config
  ((base.override request.given).check).mapError .setting

/-- The plan of a build with the given settings. -/
def Request.plan (request : Request) (home : Location) (settings : Settings) :
    Except FileError Plan := do
  let path (setting : Setting) := Path.settle home (Path.ofLocation home) (settings setting)
  return {
    name := request.name.filter (· ≠ [])
    stages := request.stages
    mode := request.mode
    source := ← path .sourceDir
    enhanced := ← path .enhancedDir
    site := ← path .siteDir
    shell := {
      css := some (settings .css)
      devJs := some (settings .devJs)
      template := ← path .template } }

/-- The plan of a build in its workspace, or why there is none. It is a failure if a setting cannot
be a path. -/
def Request.settle (request : Request) : Run (Except Refusal Plan) := do
  let workspace ← get
  match request.settings workspace.tree workspace.home with
  | .error refusal => return .error refusal
  | .ok settings =>
    let plan ← Run.ofExcept Failure.file (request.plan workspace.home settings)
    if ← Run.pathExists plan.source then return .ok plan
    else return .error (.noSource plan.source)

/-- Carry out a plan. The result is the number of failures reported. -/
def Plan.run (plan : Plan) (convert : Text → Text) : Run Nat := do
  let errors ←
    if plan.stages.enhances then
      match plan.name with
      | some name => enhanceOne plan.source plan.enhanced name plan.mode
      | none => enhanceAll plan.source plan.enhanced plan.mode
    else pure 0
  if plan.stages.renders then
    match plan.name with
    | some name =>
      discard (renderPage convert plan.shell plan.site (plan.enhanced.child (name ++ ".md")))
    | none => renderAll convert plan.shell plan.site plan.enhanced
  return errors

/-- The folder whose changes call for the plan to be carried out again. -/
def Plan.watched (plan : Plan) : Path :=
  if plan.stages = .renderOnly then plan.enhanced else plan.source

end Folio.Build
