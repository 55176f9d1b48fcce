import Folio.Reload.Loop

/-!
# Questions on their way

The page does not wait for an answer before it asks again. So several questions can be on their way
at once, and a later one can be answered first. A session is the page with its server and the
answers between them; its moves can follow each other in any order.
-/

namespace Folio.Reload

/-- What can happen while a page is open. -/
inductive Move where
  /-- The server gets a version of the page with these stamps. -/
  | publish (lastModified etag : Option Text)
  /-- The page asks for the stamps, and those that the server has now are on their way. -/
  | ask
  /-- An answer arrives; so many older questions are still open. -/
  | arrive (older : Nat) (scroll : Scroll)
  /-- A question fails; so many older ones are still open. -/
  | fail (older : Nat)

/-- A page, its server, and what is on its way between them. -/
structure Session where
  /-- What the server answers now. -/
  server : Answer
  loop : Loop
  /-- The answers on their way, in the order of their questions. -/
  pending : List Answer := []
  /-- What the page has done so far. -/
  log : List Action := []

namespace Session

/-- The session of a page that has been loaded from a server with these stamps. -/
def load (page : Page) (lastModified etag : Option Text) : Session where
  server := .stamps lastModified etag
  loop := .start page.lastModified

/-- An open question ends with an answer. -/
def settle (page : Page) (session : Session) (older : Nat) (answer : Answer) (scroll : Scroll) :
    Session :=
  let (loop, actions) := page.onArrival session.loop answer scroll
  { session with loop, pending := session.pending.eraseIdx older, log := session.log ++ actions }

def step (page : Page) (session : Session) : Move → Session
  | .publish lastModified etag => { session with server := .stamps lastModified etag }
  | .ask =>
    { session with
      pending := session.pending ++ [session.server]
      log := session.log ++ [.fetch page.address] }
  | .arrive older scroll =>
    match session.pending[older]? with
    | none => session
    | some answer => session.settle page older answer scroll
  | .fail older =>
    match session.pending[older]? with
    | none => session
    | some _ => session.settle page older .failed {}

def run (page : Page) (session : Session) (moves : List Move) : Session :=
  moves.foldl (step page) session

end Session

def Action.isReload : Action → Bool
  | .reload => true
  | _ => false

/-- How often the page has been reloaded. -/
def Session.reloads (session : Session) : Nat := session.log.countP (·.isReload)

end Folio.Reload
