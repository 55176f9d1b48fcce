import Folio.Command.Arguments
import Folio.Preview.Clock

/-!
# A browser that prints pages

A preview shows a page in a browser and prints it to a file. What the browser and the watcher of
files are told is kept in a log, together with what is printed for the user. How long a rendering
takes and whether it fails is given as data.
-/

namespace Folio.Preview

open Command

inductive Entry where
  | launch (headless : Bool)
  | newContext (width height : Nat)
  | newPage
  | emulateMedia (media : Text)
  | goto (address : Text)
  | pdf (path : OptionValue)
  | close
  | schedule (folder : Text)
  | start
  | stop
  | join
  | tick
  | exit
  | print (text : Text)
  deriving DecidableEq, Repr

/-- Add an entry to a log. Texts printed one after the other become one entry. -/
def addEntry (log : List Entry) (entry : Entry) : List Entry :=
  match log.getLast?, entry with
  | some (.print before), .print text => log.dropLast ++ [.print (before ++ text)]
  | _, _ => log ++ [entry]

/-- The step at which a rendering fails. -/
inductive RenderStep where
  | goto
  | pdf
  deriving DecidableEq, Repr

/-- How a rendering goes: the seconds that its two steps take, and at which it fails with which
message. -/
structure Rendering where
  gotoSeconds : Float := 0
  pdfSeconds : Float := 0
  failure : Option (RenderStep × Text) := none

/-- The browser: the time, how the renderings to come will go, and the log. -/
structure Browser where
  clock : Float
  renderings : List Rendering
  log : List Entry := []

namespace Browser

def note (browser : Browser) (entry : Entry) : Browser :=
  { browser with log := addEntry browser.log entry }

def printLine (browser : Browser) (text : Text) : Browser :=
  browser.note (.print (text ++ "\n"))

def wait (browser : Browser) (seconds : Float) : Browser :=
  { browser with clock := browser.clock + seconds }

/-- Render the page at an address into a file. The line printed afterwards is made from the time of
day and the milliseconds it took; a failure is printed too and changes nothing else. That there is
no time of day counts as a failure. -/
def render (browser : Browser) (address : Text) (output : OptionValue)
    (report : Text → Text → Text) : Browser :=
  let rendering := browser.renderings.head?.getD {}
  let started := browser.clock
  let failed (browser : Browser) (message : Text) : Browser :=
    browser.printLine ("Render Error: " ++ message)
  let opened := ({ browser with renderings := browser.renderings.tail }.note (.goto address)).wait
    rendering.gotoSeconds
  match rendering.failure with
  | some (.goto, message) => failed opened message
  | failure =>
    let printed := (opened.note (.pdf output)).wait rendering.pdfSeconds
    match failure with
    | some (_, message) => failed printed message
    | none =>
      let elapsed := (printed.clock - started) * 1000
      match timeOfDay printed.clock with
      | .error error => failed printed error.message
      | .ok time => printed.printLine (report time (Double.ofFloat elapsed).wholeText)

end Browser

end Folio.Preview
