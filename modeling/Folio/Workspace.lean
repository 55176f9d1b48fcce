import Folio.Console
import Folio.Failure

/-!
# The workspace

What a command works on: the file tree, the folder in which it was started, and the console. A
command is a function on workspaces that ends with a value or a failure; what it did before a
failure stays done.
-/

namespace Folio

/-- The surroundings of a command. -/
structure Workspace where
  /-- The folder from which relative paths start. -/
  home : Location
  tree : FileTree
  console : Console := {}

/-- A step that may fail and changes the workspace. -/
abbrev Run := ExceptT Failure (StateM Workspace)

namespace Run

def report (report : Report) : Run Unit :=
  modify fun workspace => { workspace with console := workspace.console.report report }

def reportAll (reports : List Report) : Run Unit :=
  modify fun workspace => { workspace with console := workspace.console.reportAll reports }

/-- Print a line to the output stream. -/
def printLine (text : Text) : Run Unit :=
  modify fun workspace => { workspace with console := workspace.console.print (text ++ "\n") }

/-- Print a line to the error stream. -/
def printErrorLine (text : Text) : Run Unit :=
  modify fun workspace => { workspace with console := workspace.console.printError (text ++ "\n") }

/-- Take the value of a result, or fail as it does. -/
def ofExcept {ε α : Type} (wrap : ε → Failure) : Except ε α → Run α
  | .ok value => pure value
  | .error error => throw (wrap error)

/-- The place to which a text leads, as a path from the root. -/
def settlePath (text : Text) : Run Path := do
  let home := (← get).home
  ofExcept Failure.file (Path.settle home (Path.ofLocation home) text)

/-- Is there something at the end of a path? -/
def pathExists (path : Path) : Run Bool := do
  let workspace ← get
  let entry ← ofExcept Failure.file (workspace.tree.lookAt workspace.home path.route)
  return entry.isSome

def readText (path : Path) : Run Text := do
  let workspace ← get
  ofExcept Failure.ofRead (workspace.tree.readText workspace.home path.route)

/-- Make a folder and what is missing above it. -/
def makeFolders (path : Path) : Run Unit := do
  let workspace ← get
  let (tree, result) := workspace.tree.makeFolders workspace.home path
  set { workspace with tree }
  ofExcept Failure.file result

/-- Write a text to a file. Every text has its bytes before the file is touched, so a file that
cannot be written is left as it was. -/
def writeText (path : Path) (text : Text) : Run Unit := do
  let workspace ← get
  let tree ← ofExcept Failure.file
    (workspace.tree.writeBytes workspace.home path.route (Utf8.encode text))
  set { workspace with tree }

def listMarkdown (folder : Path) : Run (List Path) := do
  let workspace ← get
  ofExcept Failure.file (workspace.tree.list workspace.home folder ".md")

end Run

end Folio
