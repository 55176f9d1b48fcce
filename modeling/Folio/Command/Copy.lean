import Folio.Command.Environment

/-!
# The copy command

Copies the Markdown files of a folder, or one of them, byte by byte into another folder.
-/

namespace Folio.Command.Copy

open Watch

/-- The arguments of the copy command. The options for style sheet, reload script and template are
taken and not used. -/
def grammar : Grammar where
  program := "preprocess.py"
  usage := "usage: preprocess.py [-h] [--watch] [--src-dir SRC_DIR]
                     [--build-dir BUILD_DIR]
                     [name]
"
  explanation := "Preprocess Markdown (.md) files. Currently: copy to tmp/step-1-enhanced-md.

positional arguments:
  name                  Optional base name of a single markdown file to
                        preprocess, without .md (e.g. 'page' preprocesses
                        src/page.md). If omitted, all src/*.md are processed.

options:
  -h, --help            show this help message and exit
  --watch               Watch src/ for changes and re-run preprocessing.
  --src-dir SRC_DIR     Source directory containing .md files (default: src).
  --build-dir BUILD_DIR
                        Output directory for enhanced .md files (default:
                        tmp/step-1-enhanced-md).
"
  options := [
    helpOption,
    longFlag "watch",
    longOption "src-dir",
    longOption "build-dir",
    longOption "css",
    longOption "dev-js",
    longOption "template"]
  takesName := true

/-- Copy the bytes of a file. If there is a folder at the target the copy is put inside it. -/
def copyFile (source target : Path) : Run Unit := do
  Run.makeFolders target.parent
  let workspace ← get
  let inside := workspace.tree.isFolderAt workspace.home target.route
  let target := if inside then target.child source.name else target
  let from? := (workspace.tree.locate workspace.home source.route).toOption
  if from?.isSome && from? = (workspace.tree.locate workspace.home target.route).toOption then
    throw (.sameFile source.text target.text inside)
  let content ← Run.ofExcept Failure.file
    (workspace.tree.readBytes workspace.home source.route)
  let tree ← Run.ofExcept Failure.file
    (workspace.tree.writeBytes workspace.home target.route content)
  set { workspace with tree }

/-- What is copied: one file, by its name without ending, or all; from where and to where. -/
structure Job where
  name : Option Text
  source : Path
  target : Path
  deriving DecidableEq, Repr

def Job.copyOne (job : Job) (source : Path) : Run Unit := do
  unless ← Run.pathExists source do throw (.markdownMissing source.text)
  let target := job.target.child source.name
  Run.printLine ("[preprocess] " ++ source.text ++ " -> " ++ target.text)
  copyFile source target

def Job.run (job : Job) : Run Unit := do
  match job.name with
  | some name => job.copyOne (job.source.child (name ++ ".md"))
  | none =>
    match ← Run.listMarkdown job.source with
    | [] => Run.printLine ("[preprocess] No .md files found in: " ++ job.source.text)
    | sources => sources.forM job.copyOne

/-- Start to watch. A failure of the job is printed, and the command goes on watching. -/
def watch {τ : Type} (environment : Environment) (job : Job) : Run (Progress τ) := do
  unless environment.watching = .ready do throw .watcherMissing
  Run.printLine ("[preprocess][watch] Watching " ++ job.source.text ++ " for .md changes...")
  return .watching {
    folder := job.source
    trigger := .always
    job := tryCatch job.run fun failure =>
      Run.printErrorLine ("[preprocess][watch] Error: " ++ failure.message) }

def run {τ : Type} (environment : Environment) (texts : List Text) : Run (Progress τ) :=
  withWatching environment <| withArguments grammar texts fun arguments => do
    let folder (key default : Text) : Run Path :=
      match arguments.valueOr key default with
      | .text text => Run.settlePath text
      | .nothing => throw .noPath
    let job : Job := {
      name := arguments.name?
      source := ← folder "src-dir" "src"
      target := ← folder "build-dir" "tmp/step-1-enhanced-md" }
    if ← Run.pathExists job.source then
      tryCatch (do
        job.run
        if arguments.has "watch" then watch environment job else return .finished 0)
        fun failure => do
          Run.printErrorLine ("[preprocess] ERROR: " ++ failure.message)
          return .finished 1
    else
      Run.printErrorLine ("[preprocess] Source directory does not exist: " ++ job.source.text)
      return .finished 2

end Folio.Command.Copy
