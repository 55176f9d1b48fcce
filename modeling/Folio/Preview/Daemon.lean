import Folio.Failure
import Folio.Preview.Browser
import Folio.Watch.Debounce

/-!
# Preview daemons

A daemon watches one HTML file and has it printed whenever it changes. The queueing daemon only
notes a change and renders in its own loop, one request in each round; the direct daemon renders at
once. Both run until they are interrupted.

The queueing daemon keeps account of its requests: each change adds one, each round takes at most
one away. Its rounds and the arriving events may follow one another in any order (`Queueing.step`).
-/

namespace Folio.Preview

open Command

/-- The files of a daemon, as written, and the folder in which it was started. -/
structure Target where
  input : Text
  output : OptionValue
  home : Location
  deriving DecidableEq, Repr

/-- The path to a file from the root. -/
def Target.absolute (target : Target) (text : Text) : Path := (Path.parse text).absolute target.home

/-- The path to the watched file from the root. -/
def Target.path (target : Target) : Path := target.absolute target.input

def Target.address (target : Target) : Text := "file://" ++ target.path.text

/-- An event, at a time if one is given. -/
abbrev Event := Watch.Event (Option Float)

/-- Does the event say that the watched file was changed? -/
def Target.concerns (target : Target) (event : Event) : Bool :=
  event.change == .modified && target.absolute event.path == target.path

/-- Set the clock to the time of an event. -/
def Browser.reach (browser : Browser) (event : Event) : Browser :=
  { browser with clock := event.time.getD browser.clock }

/-! ## The queueing daemon -/

/-- The queueing daemon: the browser, and the requests that wait. -/
structure Queueing where
  browser : Browser
  waiting : Nat := 0

namespace Queueing

def render (target : Target) (browser : Browser) : Browser :=
  browser.render target.address target.output fun time elapsed =>
    "[" ++ time ++ "] Sync: " ++ elapsed ++ "ms -> " ++ target.output.shown

def notice (target : Target) (daemon : Queueing) (event : Event) : Queueing where
  browser := daemon.browser.reach event
  waiting := if target.concerns event then daemon.waiting + 1 else daemon.waiting

/-- One round of the loop: take a request, if one waits, and render. -/
def round (target : Target) (daemon : Queueing) : Queueing :=
  match daemon.waiting with
  | 0 => daemon
  | waiting + 1 => { browser := render target daemon.browser, waiting }

/-- What can happen to the daemon while it runs. -/
inductive Move where
  | round
  | tick
  | event (event : Event)
  deriving DecidableEq, Repr

/-- What a move does to the daemon. -/
def step (target : Target) (daemon : Queueing) : Move → Queueing
  | .round => daemon.round target
  | .tick => { daemon with browser := daemon.browser.note .tick }
  | .event event => daemon.notice target event

/-- The moves of a run in which events arrive at the ticks: one tick after each round, until a tick
has no events to come and the daemon is interrupted. -/
def moves : List (List Event) → List Move
  | [] => [.round, .tick]
  | events :: rest => .round :: .tick :: events.map .event ++ moves rest

def run (target : Target) (inputExists : Bool) (browser : Browser) (ticks : List (List Event)) :
    Browser :=
  let opened := (((browser.note (.launch false)).note (.newContext 794 1123)).note .newPage).note
    (.emulateMedia "print")
  let shown := if inputExists then render target opened else opened
  let watching := ((shown.note (.schedule target.path.parent.text)).note .start).printLine
    ("Daemon active. Watching: " ++ target.input)
  let stopped := ((moves ticks).foldl (step target) { browser := watching }).browser
  (((stopped.printLine "\nShutting down...").note .stop).note .close).note .join |>.note .exit

end Queueing

/-! ## The direct daemon -/

namespace Direct

def render (target : Target) (browser : Browser) : Browser :=
  browser.render target.address target.output fun time elapsed =>
    "[" ++ time ++ "] PDF Updated in " ++ elapsed ++ "ms"

/-- Notice an event, and render if the watched file was changed. -/
def notice (target : Target) (browser : Browser) (event : Event) : Browser :=
  let browser := browser.reach event
  if target.concerns event then render target browser else browser

/-- The loop: ticks, at which events arrive, until there are no more. -/
def loop (target : Target) (browser : Browser) : List (List Event) → Browser
  | [] => browser.note .tick
  | events :: rest => loop target (events.foldl (notice target) (browser.note .tick)) rest

def launched (browser : Browser) : Browser := (browser.note (.launch true)).note .newPage

def run (target : Target) (inputExists : Bool) (browser : Browser) (ticks : List (List Event)) :
    Browser :=
  let opened := launched browser
  let shown := if inputExists then render target opened else opened
  let watching := ((shown.note (.schedule target.path.parent.text)).printLine
    ("Daemon active. Watching " ++ target.input ++ "...")).note .start
  (((loop target watching ticks).note .stop).note .close).note .join |>.note .exit

end Direct

/-! ## Commands -/

inductive Kind where
  | queueing
  | direct
  deriving DecidableEq, Repr

def Kind.grammar (kind : Kind) : Grammar :=
  let (program, title) : Text × Text :=
    match kind with
    | .queueing => ("sync_daemon.py", "Live Magazine Sync Daemon")
    | .direct => ("pdf_daemon.py", "Persistent PDF Daemon")
  { program
    usage := "usage: " ++ program ++ " [-h] [-i INPUT] [-o OUTPUT]\n"
    explanation := title ++ "

options:
  -h, --help            show this help message and exit
  -i INPUT, --input INPUT
                        HTML file to watch
  -o OUTPUT, --output OUTPUT
                        PDF to generate
"
    options := [
      helpOption,
      { key := "input", names := ["-i", "--input"], kind := .value },
      { key := "output", names := ["-o", "--output"], kind := .value }]
    takesName := false }

inductive Ending where
  | exit (code : Nat)
  | failed (failure : Failure)
  deriving DecidableEq, Repr

/-- What a daemon did: how it ended, its log, and what it printed as an error. -/
structure Outcome where
  ending : Ending
  log : List Entry
  err : Text := []
  deriving DecidableEq, Repr

/-- What a daemon has done when it finds that it has no input: the queueing one looks first, the
direct one starts its browser first. -/
def Kind.withoutInput (kind : Kind) (browser : Browser) : Browser :=
  match kind with
  | .queueing => browser
  | .direct => (Direct.launched browser).note .exit

def Kind.run (kind : Kind) (tree : FileTree) (home : Location) (browser : Browser)
    (ticks : List (List Event)) (texts : List Text) : Outcome :=
  match kind.grammar.parse texts with
  | .error .help =>
    { ending := .exit 0, log := addEntry browser.log (.print kind.grammar.help) }
  | .error (.refused error) =>
    { ending := .exit 2, log := browser.log, err := kind.grammar.complaint error }
  | .ok arguments =>
    match arguments.valueOr "input" "preview.html" with
    | .nothing => { ending := .failed .noPath, log := (kind.withoutInput browser).log }
    | .text input =>
      let target : Target := { input, output := arguments.valueOr "output" "magazine.pdf", home }
      let inputExists := tree.existsAt home (Route.parse input)
      let final :=
        match kind with
        | .queueing => Queueing.run target inputExists browser ticks
        | .direct => Direct.run target inputExists browser ticks
      { ending := .exit 0, log := final.log }

end Folio.Preview
