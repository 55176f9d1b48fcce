import Folio.Page.Document
import Folio.Page.Title
import Folio.Workspace

/-!
# Rendering pages

The second stage of a build sets each enhanced Markdown file into the document template. How
Markdown becomes the body of a document is given from outside, as a function on texts.
-/

namespace Folio.Build

def templateAt (tree : FileTree) (home : Location) (path : Path) : Except Failure Text :=
  match tree.lookAt home path.route with
  | .error error => .error (.file error)
  | .ok none => .error (.templateMissing path.text)
  | .ok (some _) => (tree.readText home path.route).mapError Failure.ofRead

/-- What all pages of a build share. -/
structure Shell where
  css : Option Text
  devJs : Option Text
  template : Path
  deriving DecidableEq, Repr

/-- Set a title and a body into a document. -/
def Shell.wrap (shell : Shell) (tree : FileTree) (home : Location) (title body : Text) :
    Except Failure Text := do
  let template ← templateAt tree home shell.template
  let css ← (requireValue "css" shell.css).mapError .setting
  let devJs ← (requireValue "dev_js" shell.devJs).mapError .setting
  return Page.Document.render { title, css, devJs, body } template

/-- Render a Markdown file into a folder. The result is the path of the page. -/
def renderPage (convert : Text → Text) (shell : Shell) (folder source : Path) : Run Path := do
  unless ← Run.pathExists source do throw (.markdownMissing source.text)
  let target := folder.child (source.stem ++ ".html")
  Run.report { level := .info, message := "[build] " ++ source.text ++ " -> " ++ target.text }
  let text ← Run.readText source
  let workspace ← get
  let page ← Run.ofExcept id
    (shell.wrap workspace.tree workspace.home (Page.title source.stem text) (convert text))
  Run.makeFolders target.parent
  Run.writeText target page
  return target

/-- Render the Markdown files of a folder into another. That there are none is reported, but is no
failure. -/
def renderAll (convert : Text → Text) (shell : Shell) (folder sourceDir : Path) : Run Unit := do
  match ← Run.listMarkdown sourceDir with
  | [] =>
    Run.report {
      level := .error, message := "[build] No .md files found in: " ++ sourceDir.text }
  | sources => sources.forM fun source => discard (renderPage convert shell folder source)

end Folio.Build
