import Folio.Command.Build
import Folio.Command.Copy
import Folio.Command.Magazine
import Folio.Command.PlainBuild
import Folio.Watch.Poll

/-!
# The command line

The first argument names a command, the others are its arguments. A command runs on a copy of the
files below the working folder; what it changed there is written afterwards.

The body of a page is its text as it stands: HTML in Markdown stays HTML.
-/

namespace Folio.Main

open Command Watch

def commands : List (String × (List Text → Run (Progress Float))) :=
  let environment : Environment := { convert := id }
  let start : Debounce Float := ⟨0.25, 0⟩
  [("build", Build.run environment start),
    ("plain-build", PlainBuild.run environment start),
    ("copy", Copy.run environment),
    ("magazine", fun texts => do
      match ← Magazine.run environment texts with
      | .done => return .finished 0
      | .exit code => return .finished code)]

/-- Read an entry of a folder, and everything below it. Links are passed over. -/
partial def readEntry (folder : Location) (tree : FileTree) (entry : IO.FS.DirEntry) :
    IO FileTree := do
  let location := folder ++ [entry.fileName.toList]
  match (← entry.path.symlinkMetadata).type with
  | .dir =>
    let mut tree := tree.placeFolder location
    for inner in ← entry.path.readDir do
      tree ← readEntry location tree inner
    return tree
  | .file => return tree.place location (← IO.FS.readBinFile entry.path)
  | _ => return tree

/-- The working folder and the files below it. -/
def readFiles : IO (Location × FileTree) := do
  let folder ← IO.currentDir
  let home := (Path.parse folder.toString.toList).parts
  let mut tree := FileTree.empty.placeFolder home
  for entry in ← folder.readDir do
    tree ← readEntry home tree entry
  return (home, tree)

/-- The name of a location for the system. -/
def systemName (location : Location) : String := String.ofList (Path.ofLocation location).text

/-- Write what differs between two file trees. -/
def writeChanges (earlier later : FileTree) : IO Unit := do
  for folder in earlier.newFolders later do
    IO.FS.createDirAll (systemName folder)
  for (location, content) in earlier.changedFiles later do
    IO.FS.writeBinFile (systemName location) content

def printConsole (console : Console) : IO Unit := do
  IO.print (String.ofList console.out)
  IO.eprint (String.ofList console.err)

def clear (console : Console) : Console := { console with out := [], err := [] }

/-- Look at the files again and again and send what has changed to a watcher. -/
partial def keepWatching (watcher : Watcher Float) (seen : Workspace) : IO Unit := do
  IO.sleep 100
  let (home, tree) ← readFiles
  let now := (← IO.monoMsNow).toFloat / 1000
  let events := eventsBetween (watcher.folder.resolve home) now seen.tree tree
  let current := { seen with tree, console := clear seen.console }
  let (watcher, after) ← events.foldlM (fun (watcher, before) event => do
    let (watcher, failure, after) := watcher.send event before
    if let some failure := failure then IO.eprintln (String.ofList failure.message)
    return (watcher, after)) (watcher, current)
  printConsole after.console
  writeChanges tree after.tree
  keepWatching watcher after

def terminalConsole : IO Console := do
  return {
    noColor := (← IO.getEnv "NO_COLOR").isSome
    terminal := (← IO.getEnv "TERM").map String.toList
    outIsTerminal := ← (← IO.getStdout).isTty
    errIsTerminal := ← (← IO.getStderr).isTty }

def runCommand (command : Run (Progress Float)) : IO UInt32 := do
  let (home, tree) ← readFiles
  let (result, after) := command.run.run { home, tree, console := ← terminalConsole }
  printConsole after.console
  writeChanges tree after.tree
  match result with
  | .ok (.finished code) => return code.toUInt32
  | .ok (.watching watcher) =>
    keepWatching watcher after
    return 0
  | .error failure =>
    IO.eprintln (String.ofList failure.message)
    return 1

end Folio.Main

open Folio.Main in
/-- Run the command that the first argument names. -/
def main (arguments : List String) : IO UInt32 := do
  match arguments with
  | name :: rest =>
    match commands.lookup name with
    | some command => runCommand (command (rest.map String.toList))
    | none =>
      IO.eprintln ("no such command: " ++ name)
      return 2
  | [] =>
    IO.eprintln ("commands: " ++ String.intercalate ", " (commands.map (·.1)))
    return 2
