import Folio.Command.Arguments
import Folio.Watch.Watcher

/-!
# Commands and their environment

What a command finds outside its workspace, and how all commands treat their arguments.
-/

namespace Folio.Command

open Watch

/-- Can the system tell when files change? -/
inductive WatchSupport where
  /-- It can. -/
  | ready
  /-- It cannot; a command fails when it starts to watch. -/
  | disabled
  /-- It cannot, and the commands that watch do not start at all. -/
  | missing
  deriving DecidableEq, Repr

/-- What a command finds outside its workspace. -/
structure Environment where
  /-- How Markdown becomes the body of a page. -/
  convert : Text → Text
  watching : WatchSupport := .ready

/-- Carry out a command that can watch, if it can be started at all. -/
def withWatching {α : Type} (environment : Environment) (command : Run α) : Run α :=
  if environment.watching = .missing then throw .watcherUndefined else command

/-- Read the arguments of a command and go on with them. If help is asked for it is printed and the
command is finished; if they are refused it is finished with the exit code 2. -/
def withArguments {τ : Type} (grammar : Grammar) (texts : List Text)
    (command : Arguments → Run (Progress τ)) : Run (Progress τ) :=
  match grammar.parse texts with
  | .ok arguments => command arguments
  | .error .help => do
    modify fun workspace => { workspace with console := workspace.console.print grammar.help }
    return .finished 0
  | .error (.refused error) => do
    modify fun workspace =>
      { workspace with console := workspace.console.printError (grammar.complaint error) }
    return .finished 2

/-- An option with a value that has only a long name. -/
def longOption (key : Text) : OptionSpec := { key, names := ["--" ++ key], kind := .value }

/-- A flag that has only a long name. -/
def longFlag (key : Text) : OptionSpec := { key, names := ["--" ++ key], kind := .flag }

/-- The free argument, if it is not empty. -/
def Arguments.name? (arguments : Arguments) : Option Text := arguments.name.filter (· ≠ [])

end Folio.Command
