import Folio.Text.Basic

/-!
# Events and the interval between runs

Editors cause several events for one save. A debounce lets a run start only if at least an interval
has passed since the start of the run before it.

Times are taken from any type with subtraction and an order.
-/

namespace Folio.Watch

inductive Change where
  | modified
  | created
  | deleted
  | moved
  deriving DecidableEq, Repr

structure Event (τ : Type) where
  time : τ
  path : Text
  change : Change
  isFolder : Bool
  deriving DecidableEq, Repr

/-- The least interval between the starts of runs, and the start of the last run. -/
structure Debounce (τ : Type) where
  interval : τ
  last : τ
  deriving DecidableEq, Repr

/-- A run is asked for at some time. If it starts, the state after it is given. -/
def Debounce.start? {τ : Type} [Sub τ] [LT τ] [DecidableLT τ] (state : Debounce τ) (now : τ) :
    Option (Debounce τ) :=
  if now - state.last < state.interval then none else some { state with last := now }

/-- Does the event say that a Markdown file was saved? The case of the ending does not matter. -/
def Event.isSave {τ : Type} (event : Event τ) : Bool :=
  (event.change == .modified || event.change == .created) && !event.isFolder &&
    (".md" : Text).isSuffixOf event.path.lowerAscii

/-- What an event does: it starts a run, after which the state is as given, or nothing. -/
def Debounce.handle? {τ : Type} [Sub τ] [LT τ] [DecidableLT τ] (state : Debounce τ)
    (event : Event τ) : Option (Debounce τ) :=
  if event.isSave then state.start? event.time else none

/-- Which of the events start a run. What a run does, and whether it fails, does not matter. -/
def Debounce.starts {τ : Type} [Sub τ] [LT τ] [DecidableLT τ] (state : Debounce τ) :
    List (Event τ) → List Bool
  | [] => []
  | event :: rest =>
    match state.handle? event with
    | none => false :: state.starts rest
    | some next => true :: next.starts rest

/-- Send events to a handler that carries out a job when a run starts. For each event the result of
the job is given, if it was carried out. A run that fails has started all the same. -/
def Debounce.serve {τ σ ε : Type} [Sub τ] [LT τ] [DecidableLT τ]
    (job : ExceptT ε (StateM σ) Unit) (state : Debounce τ) :
    σ → List (Event τ) → List (Option (Except ε Unit))
  | _, [] => []
  | surroundings, event :: rest =>
    match state.handle? event with
    | none => none :: state.serve job surroundings rest
    | some next =>
      let (result, after) := job.run.run surroundings
      some result :: next.serve job after rest

end Folio.Watch
