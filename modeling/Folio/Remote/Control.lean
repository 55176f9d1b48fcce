import Folio.Remote.Message
import Folio.Text.UpperCase

/-!
# Controlling a browser

Two commands that send messages to a browser: the general one, which can reload a page, go to an
address, press a key or close the browser, and one that only reloads. The connection may fail at any
step; a failure is printed, except while a key is pressed.
-/

namespace Folio.Remote

/-- A step of a connection. -/
inductive Step where
  | connect (address : Text)
  | send (message : Text)
  | close
  deriving DecidableEq, Repr

inductive StepKind where
  | connect
  | send
  | close
  deriving DecidableEq, Repr

def Step.kind : Step → StepKind
  | connect _ => .connect
  | send _ => .send
  | close => .close

/-- What will go wrong: the `nth` step of a kind, counted from one, fails with a message. -/
structure Trouble where
  kind : StepKind
  nth : Nat
  message : Text
  deriving DecidableEq, Repr

/-- Take steps until one fails. The steps taken are given, the failing one included, and the message
of the failure. -/
def takeSteps : Option Trouble → List Step → List Step × Option Text
  | _, [] => ([], none)
  | none, step :: rest =>
    let (taken, message) := takeSteps none rest
    (step :: taken, message)
  | some trouble, step :: rest =>
    if step.kind = trouble.kind then
      if trouble.nth = 1 then ([step], some trouble.message)
      else
        let (taken, message) := takeSteps (some { trouble with nth := trouble.nth - 1 }) rest
        (step :: taken, message)
    else
      let (taken, message) := takeSteps (some trouble) rest
      (step :: taken, message)

inductive Failure where
  /-- An argument is missing. -/
  | missingArgument
  /-- The upper case of a key is not one character but so many. -/
  | notOneCharacter (length : Nat)
  /-- The connection failed. -/
  | connection (message : Text)
  deriving DecidableEq, Repr

def Failure.message : Failure → Text
  | missingArgument => "list index out of range"
  | notOneCharacter length =>
    "ord() expected a character, but string of length " ++ Text.ofNat length ++ " found"
  | connection message => message

/-- What a command did: the steps it took, what it printed after them, and how it failed. -/
structure Outcome where
  steps : List Step := []
  printed : Text := []
  failure : Option Failure := none
  deriving DecidableEq, Repr

/-- Send one message, print that it was sent, or what went wrong behind the given words. -/
def sendOne (trouble : Option Trouble) (address : Text) (message : Message)
    (sent complaint : Text) : Outcome :=
  match takeSteps trouble [.connect address, .send message.render, .close] with
  | (steps, none) => { steps, printed := sent ++ "\n" }
  | (steps, some error) => { steps, printed := complaint ++ error ++ "\n" }

/-- The message that makes a page reload itself with what it has stored. -/
def reloadMessage : Message := ⟨1, "Page.reload", [("ignoreCache", .boolean false)]⟩

/-- The messages that press a key: it goes down, it is typed, it goes up. -/
def keyMessages (key : Text) (code : Nat) : List Message :=
  ([("keyDown" : Text), "char", "keyUp"].zipIdx).map fun (kind, id) =>
    ⟨id, "Input.dispatchKeyEvent", [
      ("type", .text kind), ("key", .text key), ("text", .text key),
      ("windowsVirtualKeyCode", .number code)]⟩

/-- Press a key. A failure of the connection is not caught. -/
def pressKey (trouble : Option Trouble) (address key : Text) : Outcome :=
  match key.upper with
  | [c] =>
    let sends := (keyMessages key c.toNat).map fun message => Step.send message.render
    match takeSteps trouble (.connect address :: sends ++ [.close]) with
    | (steps, none) => { steps, printed := "Sent KeyPress: " ++ key ++ "\n" }
    | (steps, some error) => { steps, failure := some (.connection error) }
  | other => { failure := some (.notOneCharacter other.length) }

/-- The general command. Its arguments are the address of the browser, what to do, and with what. -/
def control (trouble : Option Trouble) (arguments : List Text) : Outcome :=
  let send (address method : Text) (parameters : List (Text × Value)) : Outcome :=
    sendOne trouble address ⟨1, method, parameters⟩ ("Sent " ++ method) "Error: "
  match arguments with
  | address :: command :: rest =>
    if command = ("reload" : Text) then
      sendOne trouble address reloadMessage "Sent Page.reload" "Error: "
    else if command = ("goto" : Text) then
      match rest with
      | target :: _ => send address "Page.navigate" [("url", .text target)]
      | [] => { failure := some .missingArgument }
    else if command = ("key" : Text) then
      match rest with
      | key :: _ => pressKey trouble address key
      | [] => { failure := some .missingArgument }
    else if command = ("close" : Text) then send address "Browser.close" []
    else {}
  | _ => { failure := some .missingArgument }

/-- The command that only reloads. Its argument is the address of the browser. -/
def reloadOnly (trouble : Option Trouble) (arguments : List Text) : Outcome :=
  match arguments with
  | [] => { printed := "No WebSocket URL provided.\n" }
  | address :: _ =>
    sendOne trouble address reloadMessage "Successfully signaled Chrome."
      "Error connecting to Chrome: "

end Folio.Remote
