import Folio.Preview.Daemon
import Mathlib.Data.List.Basic

/-!
# No request is lost

The queueing daemon renders once for every change of its file. The renderings of its loop and the
requests that wait add up to the changes it was told of, after every sequence of rounds, ticks and
events and whichever renderings fail. Main result: `requests_conserved`.

* `Browser.log_render`: what a rendering adds to the log, for each way in which it can end;
* `Queueing.waiting_run`: the requests that wait do not depend on how the renderings end;
* `Queueing.conserved_step`, `Queueing.conserved_run`: what one move and what a run keeps.
-/

namespace Folio.Preview

open Command

/-! ## The log -/

/-- Does the entry begin a rendering? -/
def Entry.isGoto : Entry → Bool
  | .goto _ => true
  | _ => false

def Entry.isPrint : Entry → Bool
  | .print _ => true
  | _ => false

theorem addEntry_of_not_isPrint (log : List Entry) {entry : Entry} (h : entry.isPrint = false) :
    addEntry log entry = log ++ [entry] := by
  unfold addEntry
  split
  · simp [Entry.isPrint] at h
  · rfl

/-- A text that is printed behind an entry of another kind is an entry of its own. -/
theorem addEntry_print (log : List Entry) {entry : Entry} (h : entry.isPrint = false)
    (text : Text) :
    addEntry (log ++ [entry]) (.print text) = log ++ [entry, .print text] := by
  unfold addEntry
  rw [List.getLast?_concat]
  split
  · rename_i hlast _
    simp only [Option.some.injEq] at hlast
    simp [hlast, Entry.isPrint] at h
  · simp

theorem countP_addEntry (log : List Entry) (entry : Entry) :
    (addEntry log entry).countP (·.isGoto) =
      log.countP (·.isGoto) + if entry.isGoto then 1 else 0 := by
  unfold addEntry
  split
  · rename_i before text hlast
    obtain ⟨front, rfl⟩ := List.getLast?_eq_some_iff.mp hlast
    simp [Entry.isGoto]
  · simp [List.countP_append, List.countP_singleton]

namespace Browser

/-- The number of renderings that were begun. -/
def renders (browser : Browser) : Nat := browser.log.countP (·.isGoto)

@[simp]
theorem renders_note (browser : Browser) (entry : Entry) :
    (browser.note entry).renders = browser.renders + if entry.isGoto then 1 else 0 :=
  countP_addEntry browser.log entry

@[simp]
theorem renders_printLine (browser : Browser) (text : Text) :
    (browser.printLine text).renders = browser.renders := by
  unfold printLine
  simp [Entry.isGoto]

@[simp]
theorem renders_reach (browser : Browser) (event : Event) :
    (browser.reach event).renders = browser.renders := rfl

/-! ## One rendering -/

/-- How the rendering to come will end: with a failure at one of its steps, or with the time of day
and the milliseconds it took. -/
def ending (browser : Browser) : Except (RenderStep × Text) (Text × Text) :=
  let rendering := browser.renderings.head?.getD {}
  let clock := browser.clock + rendering.gotoSeconds + rendering.pdfSeconds
  match rendering.failure with
  | some failure => .error failure
  | none =>
    match timeOfDay clock with
    | .error error => .error (.pdf, error.message)
    | .ok time => .ok (time, (Double.ofFloat ((clock - browser.clock) * 1000)).wholeText)

end Browser

/-- What the browser is told up to the given step. -/
def attempt (address : Text) (output : OptionValue) : RenderStep → List Entry
  | .goto => [.goto address]
  | .pdf => [.goto address, .pdf output]

/-- What a rendering adds to the log: its steps, and one line about its end. -/
def renderEntries (address : Text) (output : OptionValue) (report : Text → Text → Text) :
    Except (RenderStep × Text) (Text × Text) → List Entry
  | .error (step, message) =>
    attempt address output step ++ [.print ("Render Error: " ++ message ++ "\n")]
  | .ok (time, elapsed) => attempt address output .pdf ++ [.print (report time elapsed ++ "\n")]

section Render

variable (browser : Browser) (address : Text) (output : OptionValue) (report : Text → Text → Text)

theorem Browser.log_render :
    (browser.render address output report).log =
      browser.log ++ renderEntries address output report browser.ending := by
  have hgoto (log : List Entry) : addEntry log (.goto address) = log ++ [.goto address] :=
    addEntry_of_not_isPrint log rfl
  have hpdf (log : List Entry) : addEntry log (.pdf output) = log ++ [.pdf output] :=
    addEntry_of_not_isPrint log rfl
  -- the line about the end stands behind a step, so it is not joined to an earlier one
  have hopened (line : Text) : addEntry (browser.log ++ [.goto address]) (.print line) =
      browser.log ++ (attempt address output .goto ++ [.print line]) :=
    addEntry_print browser.log rfl line
  have hprinted (line : Text) :
      addEntry (browser.log ++ [.goto address] ++ [.pdf output]) (.print line) =
        browser.log ++ (attempt address output .pdf ++ [.print line]) := by
    rw [addEntry_print _ rfl, List.append_assoc]
    rfl
  unfold Browser.render Browser.ending
  generalize browser.renderings.head?.getD {} = rendering
  obtain ⟨gotoSeconds, pdfSeconds, failure⟩ := rendering
  simp only [printLine, note, wait, hgoto, hpdf]
  cases failure with
  | some failure =>
    obtain ⟨step, message⟩ := failure
    cases step with
    | goto => apply hopened
    | pdf => apply hprinted
  | none =>
    cases timeOfDay (browser.clock + gotoSeconds + pdfSeconds) with
    | error error => apply hprinted
    | ok time => apply hprinted

theorem countP_renderEntries (ending : Except (RenderStep × Text) (Text × Text)) :
    (renderEntries address output report ending).countP (·.isGoto) = 1 := by
  cases ending with
  | error failure =>
    obtain ⟨step, message⟩ := failure
    cases step <;> rfl
  | ok times => rfl

/-- However it ends, a rendering counts once. -/
@[simp]
theorem Browser.renders_render :
    (browser.render address output report).renders = browser.renders + 1 := by
  unfold renders
  rw [log_render, List.countP_append, countP_renderEntries]

end Render

namespace Queueing

/-! ## The queue by itself -/

/-- Does the move ask for a rendering? -/
def asks (target : Target) : Move → Bool
  | .event event => target.concerns event
  | _ => false

/-- Does the move do anything but let time pass? -/
def matters (target : Target) : Move → Bool
  | .event event => target.concerns event
  | _ => true

/-- How many requests wait behind a move. -/
def queued (target : Target) (waiting : Nat) : Move → Nat
  | .round => waiting - 1
  | .tick => waiting
  | .event event => if target.concerns event then waiting + 1 else waiting

section Queue

variable (target : Target)

/-- A round with a request renders, however the rendering ends. -/
theorem step_round_of_pos {daemon : Queueing} (h : 0 < daemon.waiting) :
    step target daemon .round = ⟨render target daemon.browser, daemon.waiting - 1⟩ := by
  obtain ⟨waiting, hwaiting⟩ := Nat.exists_eq_succ_of_ne_zero (Nat.ne_of_gt h)
  simp only [step, round, hwaiting]
  rfl

theorem step_round_of_zero {daemon : Queueing} (h : daemon.waiting = 0) :
    step target daemon .round = daemon := by
  simp only [step, round, h]

theorem waiting_step (daemon : Queueing) (move : Move) :
    (step target daemon move).waiting = queued target daemon.waiting move := by
  cases move with
  | round =>
    by_cases hidle : daemon.waiting = 0
    · rw [step_round_of_zero target hidle, hidle]
      rfl
    · rw [step_round_of_pos target (Nat.pos_of_ne_zero hidle)]
      rfl
  | tick => rfl
  | event event => rfl

/-- How the renderings end does not matter for the queue. -/
theorem waiting_run (daemon : Queueing) (course : List Move) :
    (course.foldl (step target) daemon).waiting = course.foldl (queued target) daemon.waiting := by
  induction course generalizing daemon with
  | nil => rfl
  | cons move rest ih => rw [List.foldl_cons, List.foldl_cons, ih, waiting_step]

theorem foldl_queued_filter (waiting : Nat) (course : List Move) :
    (course.filter (matters target)).foldl (queued target) waiting =
      course.foldl (queued target) waiting := by
  induction course generalizing waiting with
  | nil => rfl
  | cons move rest ih =>
    by_cases hmatters : matters target move = true
    · simp [hmatters, ih]
    · have hsame : queued target waiting move = waiting := by
        cases move with
        | round => simp [matters] at hmatters
        | tick => rfl
        | event event => simp_all [matters, queued]
      simp [hmatters, hsame, ih]

theorem foldl_queued_rounds (waiting n : Nat) :
    (List.replicate n Move.round).foldl (queued target) waiting = waiting - n := by
  induction n generalizing waiting with
  | zero => rfl
  | succ n ih =>
    rw [List.replicate_succ, List.foldl_cons, ih, queued]
    omega

/-! ## Renderings and requests -/

/-- **One move.** -/
theorem conserved_step (daemon : Queueing) (move : Move) :
    (step target daemon move).browser.renders + (step target daemon move).waiting =
      daemon.browser.renders + daemon.waiting + if asks target move then 1 else 0 := by
  cases move with
  | round =>
    by_cases hidle : daemon.waiting = 0
    · rw [step_round_of_zero target hidle]
      simp [asks]
    · have hpos : 0 < daemon.waiting := Nat.pos_of_ne_zero hidle
      rw [step_round_of_pos target hpos]
      simp only [render, Browser.renders_render, asks, Bool.false_eq_true, if_false]
      omega
  | tick => simp [step, asks, Entry.isGoto]
  | event event =>
    by_cases hconcerns : target.concerns event = true
    · simp [step, notice, asks, hconcerns]
      omega
    · simp [step, notice, asks, hconcerns]

/-- **A whole run.** -/
theorem conserved_run (daemon : Queueing) (course : List Move) :
    (course.foldl (step target) daemon).browser.renders +
        (course.foldl (step target) daemon).waiting =
      daemon.browser.renders + daemon.waiting + course.countP (asks target) := by
  induction course generalizing daemon with
  | nil => rfl
  | cons move rest ih =>
    have hstep := conserved_step target daemon move
    have hrest := ih (step target daemon move)
    rw [List.foldl_cons, List.countP_cons]
    omega

/-- Events that do not concern the daemon may be left out. -/
theorem filter_matters (daemon : Queueing) (course : List Move) :
    ((course.filter (matters target)).foldl (step target) daemon).browser.renders =
        (course.foldl (step target) daemon).browser.renders ∧
      ((course.filter (matters target)).foldl (step target) daemon).waiting =
        (course.foldl (step target) daemon).waiting := by
  have hwaiting : ((course.filter (matters target)).foldl (step target) daemon).waiting =
      (course.foldl (step target) daemon).waiting := by
    rw [waiting_run, waiting_run, foldl_queued_filter]
  have hasked : (course.filter (matters target)).countP (asks target) =
      course.countP (asks target) := by
    rw [List.countP_filter]
    apply List.countP_congr
    intro move _
    cases move <;> simp [asks, matters]
  have hfiltered := conserved_run target daemon (course.filter (matters target))
  have hcourse := conserved_run target daemon course
  exact ⟨by omega, hwaiting⟩

/-- What a course does depends on the number of requests alone, not on how renderings end. -/
theorem run_congr {daemon other : Queueing}
    (hrenders : other.browser.renders = daemon.browser.renders)
    (hwaiting : other.waiting = daemon.waiting) (course : List Move) :
    (course.foldl (step target) other).browser.renders =
        (course.foldl (step target) daemon).browser.renders ∧
      (course.foldl (step target) other).waiting = (course.foldl (step target) daemon).waiting := by
  have hafter : (course.foldl (step target) other).waiting =
      (course.foldl (step target) daemon).waiting := by
    rw [waiting_run, waiting_run, hwaiting]
  have hother := conserved_run target other course
  have hdaemon := conserved_run target daemon course
  exact ⟨by omega, hafter⟩

/-- Rounds in a row serve one request each, as long as one waits. -/
theorem rounds_run (daemon : Queueing) (n : Nat) :
    ((List.replicate n Move.round).foldl (step target) daemon).browser.renders =
        daemon.browser.renders + min n daemon.waiting ∧
      ((List.replicate n Move.round).foldl (step target) daemon).waiting = daemon.waiting - n := by
  have hwaiting : ((List.replicate n Move.round).foldl (step target) daemon).waiting =
      daemon.waiting - n := by
    rw [waiting_run, foldl_queued_rounds]
  have hasked : (List.replicate n Move.round).countP (asks target) = 0 := by
    simp [List.countP_replicate, asks]
  have hrun := conserved_run target daemon (List.replicate n .round)
  exact ⟨by omega, hwaiting⟩

theorem countP_asks_moves (ticks : List (List Event)) :
    (moves ticks).countP (asks target) = ticks.flatten.countP target.concerns := by
  induction ticks with
  | nil => rfl
  | cons events rest ih =>
    have hevents : (events.map Move.event).countP (asks target) = events.countP target.concerns :=
      List.countP_map
    rw [List.flatten_cons, List.countP_append, ← ih, ← hevents, ← List.countP_append]
    rfl

/-- The daemon from its start to its end: it renders once before its loop if there is an input. -/
theorem renders_run (inputExists : Bool) (browser : Browser) (ticks : List (List Event)) :
    (run target inputExists browser ticks).renders +
        ((moves ticks).foldl (step target) { browser }).waiting =
      browser.renders + (if inputExists then 1 else 0) + ticks.flatten.countP target.concerns := by
  unfold run
  simp only [Browser.renders_note, Browser.renders_printLine, Entry.isGoto]
  generalize hwatching : Browser.printLine _ _ = watching
  have hstart : watching.renders = browser.renders + if inputExists then 1 else 0 := by
    rw [← hwatching]
    cases inputExists with
    | false => simp [Entry.isGoto]
    | true => simp [render, Entry.isGoto]
  have hloop := conserved_run target { browser := watching } (moves ticks)
  rw [waiting_run, countP_asks_moves] at hloop
  rw [waiting_run]
  simp only [hstart] at hloop
  simpa using hloop

end Queue

/-! ## The main result -/

/-- **Renderings and waiting requests add up to the changes.** Let a daemon with an empty queue run
through any course of rounds, ticks and events.

* The renderings begun since then and the requests that wait are as many as the changes of the
  watched file.
* Another event does nothing but set the clock; without all of these there are as many renderings,
  and as many requests wait.
* A round in which the rendering fails adds its steps and one error line to the log and takes one
  request.
* If the renderings to come ended in any other way, the daemon would at every later point have begun
  as many and as many requests would wait.
* Rounds go on taking requests, one each, until none waits.
* The daemon from its start to its end has one rendering more if there is an input when it
  starts. -/
theorem requests_conserved (target : Target) (browser : Browser) (course : List Move) :
    let daemon := course.foldl (step target) { browser }
    let undisturbed := (course.filter (matters target)).foldl (step target) { browser }
    daemon.browser.renders + daemon.waiting = browser.renders + course.countP (asks target) ∧
      (∀ event, target.concerns event = false →
        step target daemon (.event event) =
          { daemon with browser := daemon.browser.reach event }) ∧
      (undisturbed.browser.renders = daemon.browser.renders ∧
        undisturbed.waiting = daemon.waiting) ∧
      (∀ failed message, daemon.browser.ending = .error (failed, message) → 0 < daemon.waiting →
        (step target daemon .round).browser.log = daemon.browser.log ++
            (attempt target.address target.output failed ++
              [.print ("Render Error: " ++ message ++ "\n")]) ∧
          (step target daemon .round).waiting + 1 = daemon.waiting) ∧
      (∀ (clock : Float) (renderings : List Rendering) (later : List Move),
        let other : Queueing :=
          { daemon with browser := { daemon.browser with clock, renderings } }
        (later.foldl (step target) other).browser.renders =
            (later.foldl (step target) daemon).browser.renders ∧
          (later.foldl (step target) other).waiting =
            (later.foldl (step target) daemon).waiting) ∧
      (∀ n,
        let later := (List.replicate n .round).foldl (step target) daemon
        later.browser.renders = daemon.browser.renders + min n daemon.waiting ∧
          later.waiting = daemon.waiting - n) ∧
      ∀ inputExists ticks,
        (run target inputExists browser ticks).renders +
            ((moves ticks).foldl (step target) { browser }).waiting =
          browser.renders + (if inputExists then 1 else 0) +
            ticks.flatten.countP target.concerns := by
  intro daemon undisturbed
  have hcount := conserved_run target { browser } course
  refine ⟨hcount, ?_, filter_matters target { browser } course, ?_, ?_,
    rounds_run target daemon, ?_⟩
  · intro event hother
    simp [step, notice, hother]
  · intro failed message hending hpos
    rw [step_round_of_pos target hpos]
    constructor
    · rw [render, Browser.log_render, hending]
      rfl
    · exact Nat.sub_add_cancel hpos
  · intro clock renderings later other
    have hrenders : other.browser.renders = daemon.browser.renders := rfl
    have hwaiting : other.waiting = daemon.waiting := rfl
    exact run_congr target hrenders hwaiting later
  · intro inputExists ticks
    exact renders_run target inputExists browser ticks

/-- A change of a file. -/
def changeOf (path : Text) : Event where
  time := none
  path := path
  change := .modified
  isFolder := false

/-- The page is changed twice, written in two ways; another file is changed between. -/
def twoChanges : List Move :=
  [.event (changeOf "/w/page.html"), .event (changeOf "notes.html"), .tick,
    .event (changeOf "./page.html")]

/-- The first rendering fails when the page is opened. The other request waits and is rendered by
the next round. -/
theorem requests_conserved_twoChanges :
    let target : Target := { input := "page.html", output := .text "page.pdf", home := ["w"] }
    let browser : Browser := { clock := 0, renderings := [{ failure := some (.goto, "gone") }] }
    let daemon := twoChanges.foldl (step target) { browser }
    let failed := step target daemon .round
    daemon.browser.renders + daemon.waiting = 2 ∧
      failed.browser.log =
        [.tick, .goto "file:///w/page.html", .print "Render Error: gone\n"] ∧
      failed.waiting = 1 ∧
      (step target failed .round).browser.renders = 2 := by
  intro target browser daemon failed
  obtain ⟨hcount, -, -, hfailed, -, hrounds, -⟩ := requests_conserved target browser twoChanges
  have htwo : daemon.waiting = 2 := by decide
  have hnone : daemon.browser.renders = 0 := by decide
  obtain ⟨hlog, hwaiting⟩ := hfailed .goto "gone" rfl (Nat.lt_of_lt_of_eq Nat.two_pos htwo.symm)
  have hrendered := (hrounds 2).1
  rw [List.replicate_succ, List.replicate_one, List.foldl_cons, List.foldl_cons, List.foldl_nil,
    hnone, htwo] at hrendered
  exact ⟨hcount.trans (by decide), hlog.trans (by decide), Nat.succ.inj (hwaiting.trans htwo),
    hrendered⟩

end Queueing

end Folio.Preview
