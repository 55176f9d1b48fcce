import Folio.Page.Sections
import Folio.Page.Tokens
import Folio.Workspace

/-!
# Enhancing sources

The first stage of a build turns Markdown sources into enhanced Markdown: directives are expanded,
tokens replaced, and the pages put into sections. `enhance` is that stage on texts; the rest reads
the sources and definitions and writes the results.
-/

namespace Folio.Build

open Directive

/-- Where the definitions are looked for. -/
def definitionsPath : Path := Path.parse "tools/preprocess.conf"

/-- The label of the reports of this stage. -/
def enhanceLabel : Text := "[preprocess]"

/-- The template in a file that definitions in a folder name. -/
def includedTemplate (tree : FileTree) (home : Location) (folder : Path) (written : Text) :
    Except (IncludeError Failure) Text :=
  match Path.settle home folder written with
  | .error error => .error (.unreadable (.file error))
  | .ok path =>
    match tree.lookAt home path.route with
    | .error error => .error (.unreadable (.file error))
    | .ok none => .error (.missing path.text)
    | .ok (some _) =>
      (tree.readText home path.route).mapError fun error => .unreadable (Failure.ofRead error)

/-- The definitions in a file; none if there is no file. -/
def definitionsAt (tree : FileTree) (home : Location) (path : Path) :
    Except Failure Definitions :=
  match tree.lookAt home path.route with
  | .error error => .error (.file error)
  | .ok none => .ok {}
  | .ok (some _) =>
    match tree.readText home path.route with
    | .error error => .error (Failure.ofRead error)
    | .ok text =>
      match Definitions.parse (includedTemplate tree home path.parent) path.text text with
      | .ok definitions => .ok definitions
      | .error (.refused place cause) => .error (.definitions place cause)
      | .error (.unreadable failure) => .error failure

def enhance (definitions : Definitions) (source : Option Text) (mode : ErrorMode) (text : Text) :
    Except PlacedError Expansion :=
  (expand definitions.directives source mode text).map fun expansion =>
    { expansion with
      text := Page.addSections (Page.substitute definitions.tokens expansion.text) }

/-- The report of a failure in a source. -/
def errorReport (error : PlacedError) : Report where
  level := .error
  message := error.message
  place := some error.place
  label := enhanceLabel

/-- Enhance a file. The result is the number of failures reported. -/
def enhanceFile (source target : Path) (mode : ErrorMode) : Run Nat := do
  unless ← Run.pathExists source do throw (.markdownMissing source.text)
  let text ← Run.readText source
  let workspace ← get
  let definitions ← Run.ofExcept id (definitionsAt workspace.tree workspace.home definitionsPath)
  let expansion ← Run.ofExcept Failure.directive
    (enhance definitions (some source.text) mode text)
  Run.reportAll (expansion.errors.map errorReport)
  Run.makeFolders target.parent
  Run.writeText target expansion.text
  return expansion.errors.length

def enhanceInto (folder source : Path) (mode : ErrorMode) : Run Nat := do
  let target := folder.child source.name
  Run.report {
    level := .info, label := enhanceLabel, message := source.text ++ " -> " ++ target.text }
  enhanceFile source target mode

/-- Enhance the Markdown files of a folder into another. -/
def enhanceAll (sourceDir folder : Path) (mode : ErrorMode) : Run Nat := do
  match ← Run.listMarkdown sourceDir with
  | [] =>
    Run.report {
      level := .info, label := enhanceLabel,
      message := "No .md files found in: " ++ sourceDir.text }
    return 0
  | sources =>
    Run.makeFolders folder
    sources.foldlM (fun errors source => return errors + (← enhanceInto folder source mode)) 0

/-- Enhance one Markdown file of a folder, given by its name without ending, into another. -/
def enhanceOne (sourceDir folder : Path) (name : Text) (mode : ErrorMode) : Run Nat := do
  let source := sourceDir.child (name ++ ".md")
  unless ← Run.pathExists source do throw (.markdownMissing source.text)
  Run.makeFolders folder
  enhanceInto folder source mode

end Folio.Build
