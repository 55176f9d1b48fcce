import Folio.Number.Shortest
import Folio.Reload.Query

/-!
# Reloading a page

While a page is being worked on it asks the server again and again for its stamp and reloads itself
when the stamp differs from the one seen last. The position on the page is stored before a reload
and restored after it.

`Loop.arrive` is the whole rule: it is applied to the answers of the server in the order in which
they arrive.
-/

namespace Folio.Reload

/-- A character that is dropped at the ends of the value that asks for reloads. -/
def isPageBlank (c : Char) : Bool :=
  let n := c.toNat
  (0x09 ≤ n && n ≤ 0x0D) || n == 0x20 || n == 0xA0 || n == 0x1680 ||
    (0x2000 ≤ n && n ≤ 0x200A) || n == 0x2028 || n == 0x2029 || n == 0x202F || n == 0x205F ||
    n == 0x3000 || n == 0xFEFF

/-- The text without blanks at either end. -/
def trim (text : Text) : Text :=
  ((text.dropWhile isPageBlank).reverse.dropWhile isPageBlank).reverse

/-- The nearest whole number, a half upwards. -/
def roundHalfUp (x : Float) : Float :=
  let lower := x.floor
  if x - lower ≥ 0.5 then lower + 1 else lower

/-- The words that ask for the usual interval. -/
def enablingWords : List Text := ["true", "yes", "on"]

/-- The milliseconds between two questions that a query asks for: a number of seconds, or a word
for one second. Letters of any case are taken; only those of ASCII occur in numbers and words. -/
def interval? (query : Text) : Option Float :=
  (queryValue? query "reload").bind fun value =>
    let word := trim value.lowerAscii
    let seconds := if value = [] then none else Numeral.parse? word
    match seconds.filter fun s => s.isFinite && s > 0 with
    | some seconds => some (roundHalfUp (seconds * 1000))
    | none => if word ∈ enablingWords then some 1000 else none

/-- What the server answered: nothing, or two stamps that may be absent. -/
inductive Answer where
  | failed
  | stamps (lastModified etag : Option Text)
  deriving DecidableEq, Repr

def nonEmpty? (text : Text) : Option Text := if text = [] then none else some text

/-- The stamp of an answer: the first that is there and not empty. -/
def Answer.stamp? : Answer → Option Text
  | failed => none
  | stamps lastModified etag => (lastModified.bind nonEmpty?).or (etag.bind nonEmpty?)

/-- The stamp seen last, if one has been seen. -/
structure Loop where
  lastSeen : Option Text
  deriving DecidableEq, Repr

/-- The loop of a page that was last modified as the browser says. -/
def Loop.start (lastModified : Text) : Loop := ⟨nonEmpty? lastModified⟩

/-- What an answer does when it arrives: the loop after it, and whether the page is reloaded. -/
def Loop.arrive (loop : Loop) (answer : Answer) : Loop × Bool :=
  match answer.stamp? with
  | none => (loop, false)
  | some stamp =>
    (⟨some stamp⟩, match loop.lastSeen with
      | none => false
      | some seen => stamp ≠ seen)

/-! ## What the page does -/

inductive Action where
  | scrollTo (top : Float)
  | setInterval (milliseconds : Float)
  | fetch (address : Text)
  /-- The attempt to store the position, and whether it succeeds. -/
  | store (position : Text) (succeeds : Bool)
  | reload
  | logFailure

/-- The page: its address, its store for the position, and whether the store works. -/
structure Page where
  address : Text
  query : Text
  lastModified : Text
  stored : Option Text
  storeWorks : Bool

/-- Where the page was scrolled to, by two measures of which the second counts if the first is
zero or no number. -/
structure Scroll where
  first : Float := 0
  second : Float := 0

/-- The position that is stored. -/
def Scroll.position (scroll : Scroll) : Float :=
  if scroll.first != 0 && !scroll.first.isNaN then scroll.first
  else if scroll.second != 0 && !scroll.second.isNaN then scroll.second
  else 0

/-- Restore the position that was stored before a reload. -/
def Page.restore (page : Page) : List Action :=
  match if page.storeWorks then page.stored else none with
  | none => []
  | some stored =>
    match Numeral.leading? (stored.dropWhile isPageBlank) with
    | some top => [.scrollTo top]
    | none => []

/-- What the page does when it has been loaded. -/
def Page.load (page : Page) : List Action :=
  page.restore ++ (interval? page.query).toList.map .setInterval

/-- What is done before the page is reloaded, and the reload itself. A store that does not work does
not prevent it. -/
def Page.reloadActions (page : Page) (scroll : Scroll) : List Action :=
  [.store (Double.ofFloat scroll.position).text page.storeWorks, .reload]

/-- What the page does when an answer arrives, and the loop after it. -/
def Page.onArrival (page : Page) (loop : Loop) (answer : Answer) (scroll : Scroll) :
    Loop × List Action :=
  let (next, reloads) := loop.arrive answer
  match answer with
  | .failed => (next, [.logFailure])
  | _ => (next, if reloads then page.reloadActions scroll else [])

/-- The actions of the page at each tick of the interval, where every question is answered before
the next tick. -/
def Page.ticks (page : Page) : Loop → List (Answer × Scroll) → List (List Action)
  | _, [] => []
  | loop, (answer, scroll) :: rest =>
    let (next, actions) := page.onArrival loop answer scroll
    (.fetch page.address :: actions) :: page.ticks next rest

/-- The actions at each tick after the page has been loaded; nothing if no interval was asked
for. -/
def Page.run (page : Page) (answers : List (Answer × Scroll)) : Option (List (List Action)) :=
  (interval? page.query).map fun _ => page.ticks (.start page.lastModified) answers

end Folio.Reload
