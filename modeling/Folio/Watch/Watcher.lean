import Folio.Watch.Debounce
import Folio.Workspace

/-!
# Watchers

A watcher carries out a job when files in a folder change. A failure of the job that nobody handles
ends the watcher: it takes no notice of later events.
-/

namespace Folio.Watch

/-- When an event calls for the job. -/
inductive Trigger (τ : Type) where
  /-- At saves of Markdown files, but not too often. -/
  | debounced (state : Debounce τ)
  /-- At every change of a file whose name has the Markdown ending. -/
  | always
  deriving DecidableEq, Repr

/-- What an event does to a trigger: it calls for the job, after which the trigger is as given, or
nothing. -/
def Trigger.pull? {τ : Type} [Sub τ] [LT τ] [DecidableLT τ] (trigger : Trigger τ)
    (event : Event τ) : Option (Trigger τ) :=
  match trigger with
  | .debounced state => (state.handle? event).map .debounced
  | .always =>
    if event.change == .modified && !event.isFolder &&
        (Path.parse event.path).ending.lowerAscii == (".md" : Text) then some .always
    else none

/-- A job that is carried out when files in a folder change. -/
structure Watcher (τ : Type) where
  folder : Path
  trigger : Trigger τ
  job : Run Unit
  alive : Bool := true

/-- Send an event to a watcher. The failure that ended it is given, if one did. -/
def Watcher.send {τ : Type} [Sub τ] [LT τ] [DecidableLT τ] (watcher : Watcher τ) (event : Event τ)
    (workspace : Workspace) : Watcher τ × Option Failure × Workspace :=
  if watcher.alive then
    match watcher.trigger.pull? event with
    | none => (watcher, none, workspace)
    | some trigger =>
      match watcher.job.run.run workspace with
      | (.ok (), after) => ({ watcher with trigger }, none, after)
      | (.error failure, after) => ({ watcher with trigger, alive := false }, some failure, after)
  else (watcher, none, workspace)

/-- How far a command has come: it is finished with an exit code, or it watches for changes. A
command that watches has the exit code zero when it is stopped. -/
inductive Progress (τ : Type) where
  | finished (code : Nat)
  | watching (watcher : Watcher τ)

end Folio.Watch
