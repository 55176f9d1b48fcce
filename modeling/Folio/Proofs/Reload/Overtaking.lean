import Folio.Reload.Session
import Mathlib.Data.List.Basic

/-!
# How often a page is reloaded

Let the stamps stand in a row: the one seen last, those on their way in the order of their
questions, and the one that the server has now. Every reload uses up a place of the row at which
neighbours differ (`differences`). A change on the server makes at most one such place. An answer
that overtakes an older one with another stamp makes at most two, and it can reload the page itself.

`reloads_le` puts this together. The page's own date counts as a stamp seen, so if it is not written
as the server writes its stamps, the first answer reloads the page (`not_reloads_le_changes`).
-/

namespace Folio.Reload

/-! ## Rows of stamps -/

/-- One if a page that has seen the first stamp is reloaded at the second. -/
def differs (seen stamp : Option Text) : Nat :=
  if seen = none ∨ seen = stamp then 0 else 1

/-- The number of places in a row at which neighbours differ. -/
def differences : List (Option Text) → Nat
  | first :: second :: rest => differs first second + differences (second :: rest)
  | _ => 0

@[simp] theorem differs_none (stamp : Option Text) : differs none stamp = 0 := by simp [differs]

@[simp] theorem differs_self (stamp : Option Text) : differs stamp stamp = 0 := by simp [differs]

theorem differs_le_one (seen stamp : Option Text) : differs seen stamp ≤ 1 := by
  unfold differs
  split <;> omega

/-- To see a stamp in between does not save a reload. -/
theorem differs_triangle (first second third : Option Text) :
    differs first third ≤ differs first second + differs second third := by
  by_cases hsame : first = second
  · subst hsame
    simp
  · cases first with
    | none => simp
    | some text =>
      have hone : differs (some text) second = 1 := by simp [differs, hsame]
      have hle := differs_le_one (some text) third
      omega

@[simp] theorem differences_singleton (stamp : Option Text) : differences [stamp] = 0 := rfl

@[simp] theorem differences_cons_cons (first second : Option Text) (rest : List (Option Text)) :
    differences (first :: second :: rest) =
      differs first second + differences (second :: rest) := rfl

section Rows

variable (first stamp : Option Text) (front back : List (Option Text))

/-- To take a stamp out of a row makes no new difference. -/
theorem differences_remove_le :
    differences (first :: (front ++ back)) ≤ differences (first :: (front ++ stamp :: back)) := by
  induction front generalizing first with
  | nil =>
    cases back with
    | nil => simp
    | cons next rest =>
      have htriangle := differs_triangle first stamp next
      simp only [List.nil_append, differences_cons_cons]
      omega
  | cons next rest ih =>
    have hrest := ih next
    simp only [List.cons_append, differences_cons_cons]
    omega

/-- Another stamp at the end of a row makes at most one difference more. -/
theorem differences_last_le (last : Option Text) :
    differences (first :: (front ++ [stamp])) ≤
      differences (first :: (front ++ [last])) + differs last stamp := by
  induction front generalizing first with
  | nil =>
    have htriangle := differs_triangle first last stamp
    simpa using htriangle
  | cons next rest ih =>
    have hrest := ih next
    simp only [List.cons_append, differences_cons_cons]
    omega

theorem differences_repeat :
    differences (first :: (front ++ [stamp] ++ [stamp])) =
      differences (first :: (front ++ [stamp])) := by
  induction front generalizing first with
  | nil => simp
  | cons next rest ih =>
    have hrest := ih next
    simp only [List.cons_append, differences_cons_cons]
    omega

/-- A stamp that overtakes none but its like takes its difference with it. -/
theorem differences_arrive_le (hfront : ∀ other ∈ front, other = stamp) :
    differs first stamp + differences (stamp :: (front ++ back)) ≤
      differences (first :: (front ++ stamp :: back)) := by
  cases front with
  | nil => simp
  | cons next rest =>
    obtain rfl : next = stamp := hfront next List.mem_cons_self
    have hremove := differences_remove_le next next rest back
    simp only [List.cons_append, differences_cons_cons, differs_self]
    omega

/-- A stamp that overtakes others makes at most two differences more. -/
theorem differences_overtake_le :
    differs first stamp + differences (stamp :: (front ++ back)) ≤
      differences (first :: (front ++ stamp :: back)) + 2 := by
  cases front with
  | nil =>
    simp only [List.nil_append, differences_cons_cons]
    omega
  | cons next rest =>
    have hremove := differences_remove_le next stamp rest back
    have hseen := differs_le_one first stamp
    have hnext := differs_le_one stamp next
    simp only [List.cons_append, differences_cons_cons]
    omega

end Rows

/-! ## Moves -/

namespace Session

/-- One if the move gives the server a new stamp. -/
def changes (session : Session) : Move → Nat
  | .publish lastModified etag =>
    if (Answer.stamps lastModified etag).stamp? = session.server.stamp? then 0 else 1
  | _ => 0

/-- One if the move is the arrival of an answer that overtakes one with another stamp. -/
def overtakings (session : Session) : Move → Nat
  | .arrive older _ =>
    match session.pending[older]? with
    | none => 0
    | some answer =>
      if ∀ other ∈ session.pending.take older, other.stamp? = answer.stamp? then 0 else 1
  | _ => 0

/-- The sum of a quantity over the moves of a run. -/
def total (page : Page) (quantity : Session → Move → Nat) (session : Session) : List Move → Nat
  | [] => 0
  | move :: rest => quantity session move + total page quantity (session.step page move) rest

/-- The stamps in a row: the one seen last, those on their way, and the one of the server. -/
def row (session : Session) : List (Option Text) :=
  session.loop.lastSeen :: (session.pending.map (·.stamp?) ++ [session.server.stamp?])

variable {page : Page} {session : Session}

/-- A move that ends no open question does nothing, and one that does settles it. -/
theorem step_arrive_eq (page : Page) (session : Session) (older : Nat) (scroll : Scroll) :
    session.step page (.arrive older scroll) =
      match session.pending[older]? with
      | none => session
      | some answer => session.settle page older answer scroll := rfl

theorem step_fail_eq (page : Page) (session : Session) (older : Nat) :
    session.step page (.fail older) =
      match session.pending[older]? with
      | none => session
      | some _ => session.settle page older .failed {} := rfl

theorem overtakings_arrive_eq {older : Nat} {answer : Answer}
    (h : session.pending[older]? = some answer) (scroll : Scroll) :
    session.overtakings (.arrive older scroll) =
      if ∀ other ∈ session.pending.take older, other.stamp? = answer.stamp? then 0 else 1 := by
  simp only [overtakings, h]

theorem run_cons (page : Page) (session : Session) (move : Move) (rest : List Move) :
    session.run page (move :: rest) = (session.step page move).run page rest := rfl

theorem onArrival_of_none {answer : Answer} (h : answer.stamp? = none) (page : Page) (loop : Loop)
    (scroll : Scroll) :
    (page.onArrival loop answer scroll).1 = loop ∧
      (page.onArrival loop answer scroll).2.countP (·.isReload) = 0 := by
  have harrive : loop.arrive answer = (loop, false) := by rw [Loop.arrive, h]
  unfold Page.onArrival
  rw [harrive]
  cases answer <;> exact ⟨rfl, rfl⟩

/-- An answer with a stamp reloads the page exactly if the stamp differs from the one seen last. -/
theorem onArrival_of_some {answer : Answer} {stamp : Text} (h : answer.stamp? = some stamp)
    (page : Page) (loop : Loop) (scroll : Scroll) :
    (page.onArrival loop answer scroll).1 = ⟨some stamp⟩ ∧
      (page.onArrival loop answer scroll).2.countP (·.isReload) =
        differs loop.lastSeen (some stamp) := by
  obtain ⟨lastModified, etag, rfl⟩ : ∃ lastModified etag, answer = .stamps lastModified etag := by
    cases answer with
    | failed => cases h
    | stamps lastModified etag => exact ⟨lastModified, etag, rfl⟩
  unfold Page.onArrival Loop.arrive
  rw [h]
  refine ⟨rfl, ?_⟩
  cases hseen : loop.lastSeen with
  | none => rfl
  | some seen =>
    by_cases hsame : stamp = seen
    · subst hsame
      simp [differs]
    · have hother : ¬ seen = stamp := fun heq => hsame heq.symm
      simp [differs, hsame, hother, Page.reloadActions, Action.isReload]

/-- An open question parts the answers on their way. -/
theorem exists_split {older : Nat} {answer : Answer} (h : session.pending[older]? = some answer) :
    ∃ front back, session.pending = front ++ answer :: back ∧
      session.pending.take older = front ∧ session.pending.eraseIdx older = front ++ back := by
  obtain ⟨hlt, rfl⟩ := List.getElem?_eq_some_iff.mp h
  refine ⟨session.pending.take older, session.pending.drop (older + 1), ?_, rfl, ?_⟩
  · rw [← List.drop_eq_getElem_cons hlt, List.take_append_drop]
  · rw [List.eraseIdx_eq_take_drop_succ]

theorem reloads_settle (older : Nat) (answer : Answer) (scroll : Scroll) :
    (session.settle page older answer scroll).reloads =
      session.reloads + (page.onArrival session.loop answer scroll).2.countP (·.isReload) := by
  unfold reloads settle
  exact List.countP_append

/-- A question that ends without a stamp only leaves the row. -/
theorem settle_of_none (page : Page) {older : Nat} {answer : Answer}
    (h : session.pending[older]? = some answer)
    {outcome : Answer} (houtcome : outcome.stamp? = none) (scroll : Scroll) :
    (session.settle page older outcome scroll).reloads = session.reloads ∧
      differences (session.settle page older outcome scroll).row ≤ differences session.row := by
  obtain ⟨hloop, hcount⟩ := onArrival_of_none houtcome page session.loop scroll
  obtain ⟨front, back, hpending, -, herase⟩ := exists_split h
  refine ⟨by rw [reloads_settle, hcount, Nat.add_zero], ?_⟩
  have hremove := differences_remove_le session.loop.lastSeen answer.stamp?
    (front.map (·.stamp?)) (back.map (·.stamp?) ++ [session.server.stamp?])
  have hrow : session.row = session.loop.lastSeen :: (front.map (·.stamp?) ++
      answer.stamp? :: (back.map (·.stamp?) ++ [session.server.stamp?])) := by
    unfold row
    simp only [hpending, List.map_append, List.map_cons, List.append_assoc, List.cons_append]
  have hrow' : (session.settle page older outcome scroll).row = session.loop.lastSeen ::
      (front.map (·.stamp?) ++ (back.map (·.stamp?) ++ [session.server.stamp?])) := by
    unfold row settle
    simp only [hloop, herase, List.map_append, List.append_assoc]
  rw [hrow, hrow']
  exact hremove

/-- An answer with a stamp turns a difference of the row into a reload. If it overtakes answers with
other stamps, there may be two more. -/
theorem settle_of_some (page : Page) {older : Nat} {answer : Answer}
    (h : session.pending[older]? = some answer)
    {stamp : Text} (hstamp : answer.stamp? = some stamp) (scroll : Scroll) :
    (session.settle page older answer scroll).reloads +
        differences (session.settle page older answer scroll).row ≤
      session.reloads + differences session.row +
        2 * session.overtakings (.arrive older scroll) := by
  obtain ⟨hloop, hcount⟩ := onArrival_of_some hstamp page session.loop scroll
  obtain ⟨front, back, hpending, htake, herase⟩ := exists_split h
  have hrow : session.row = session.loop.lastSeen :: (front.map (·.stamp?) ++
      some stamp :: (back.map (·.stamp?) ++ [session.server.stamp?])) := by
    unfold row
    simp only [hpending, List.map_append, List.map_cons, hstamp, List.append_assoc,
      List.cons_append]
  have hrow' : (session.settle page older answer scroll).row = some stamp ::
      (front.map (·.stamp?) ++ (back.map (·.stamp?) ++ [session.server.stamp?])) := by
    unfold row settle
    simp only [hloop, herase, List.map_append, List.append_assoc]
  rw [reloads_settle, hcount, hrow, hrow', overtakings_arrive_eq h, htake]
  split
  · rename_i hsame
    have harrive := differences_arrive_le session.loop.lastSeen (some stamp)
      (front.map (·.stamp?)) (back.map (·.stamp?) ++ [session.server.stamp?]) (by
        intro other hother
        obtain ⟨older, holder, rfl⟩ := List.mem_map.mp hother
        rw [hsame older holder, hstamp])
    omega
  · have hovertake := differences_overtake_le session.loop.lastSeen (some stamp)
      (front.map (·.stamp?)) (back.map (·.stamp?) ++ [session.server.stamp?])
    omega

/-- **One move.** Reloads and differences together grow by the changes and by two for every
overtaking. -/
theorem reloads_step_le (page : Page) (session : Session) (move : Move) :
    (session.step page move).reloads + differences (session.step page move).row ≤
      session.reloads + differences session.row +
        (session.changes move + 2 * session.overtakings move) := by
  cases move with
  | publish lastModified etag =>
    have hlast := differences_last_le session.loop.lastSeen
      (Answer.stamps lastModified etag).stamp? (session.pending.map (·.stamp?))
      session.server.stamp?
    have hchange : differs session.server.stamp? (Answer.stamps lastModified etag).stamp? ≤
        session.changes (.publish lastModified etag) := by
      unfold changes
      dsimp only
      split
      · rename_i hsame
        exact Nat.le_of_eq (by rw [hsame, differs_self])
      · exact differs_le_one _ _
    have hreloads : (session.step page (.publish lastModified etag)).reloads =
      session.reloads := rfl
    have hrow : (session.step page (.publish lastModified etag)).row = session.loop.lastSeen ::
      (session.pending.map (·.stamp?) ++ [(Answer.stamps lastModified etag).stamp?]) := rfl
    rw [hreloads, hrow]
    unfold row
    omega
  | ask =>
    have hrepeat := differences_repeat session.loop.lastSeen session.server.stamp?
      (session.pending.map (·.stamp?))
    have hreloads : (session.step page .ask).reloads = session.reloads := by
      unfold reloads step
      rw [List.countP_append]
      rfl
    have hrow : (session.step page .ask).row = session.loop.lastSeen ::
        (session.pending.map (·.stamp?) ++ [session.server.stamp?] ++
          [session.server.stamp?]) := by
      unfold row step
      rw [List.map_append]
      rfl
    rw [hreloads, hrow, hrepeat]
    unfold row
    omega
  | arrive older scroll =>
    rw [step_arrive_eq]
    cases hanswer : session.pending[older]? with
    | none => exact Nat.le_add_right _ _
    | some answer =>
      dsimp only
      cases hstamp : answer.stamp? with
      | none =>
        obtain ⟨hreloads, hrow⟩ := settle_of_none page hanswer hstamp scroll
        omega
      | some stamp =>
        have hsome := settle_of_some page hanswer hstamp scroll
        omega
  | fail older =>
    rw [step_fail_eq]
    cases hanswer : session.pending[older]? with
    | none => exact Nat.le_add_right _ _
    | some answer =>
      have hfailed : Answer.failed.stamp? = none := rfl
      obtain ⟨hreloads, hrow⟩ := settle_of_none page hanswer hfailed {}
      dsimp only
      omega

/-- **A whole run.** -/
theorem reloads_run_le (page : Page) (session : Session) (moves : List Move) :
    (session.run page moves).reloads + differences (session.run page moves).row ≤
      session.reloads + differences session.row +
        (session.total page changes moves + 2 * session.total page overtakings moves) := by
  induction moves generalizing session with
  | nil => simp [run, total]
  | cons move rest ih =>
    have hstep := reloads_step_le page session move
    have hrest := ih (session.step page move)
    rw [run_cons]
    unfold total
    omega

/-! ## Questions that are answered at once -/

/-- The moves of a page whose every question is answered before the next one. -/
def promptMoves : List (Answer × Scroll) → List Move
  | [] => []
  | (.failed, _) :: rest => .ask :: .fail 0 :: promptMoves rest
  | (.stamps lastModified etag, scroll) :: rest =>
    .publish lastModified etag :: .ask :: .arrive 0 scroll :: promptMoves rest

/-- A question that is answered at once leaves nothing on its way. -/
theorem settle_ask (page : Page) (session : Session) (h : session.pending = []) (answer : Answer)
    (scroll : Scroll) :
    (session.step page .ask).settle page 0 answer scroll =
      { session with
        loop := (page.onArrival session.loop answer scroll).1
        log := session.log ++ .fetch page.address ::
          (page.onArrival session.loop answer scroll).2 } := by
  unfold settle step
  simp only [h, List.nil_append, List.eraseIdx_cons_zero, List.append_assoc, List.singleton_append]

/-- Such a session does what the page does tick by tick. -/
theorem log_run_promptMoves (page : Page) (session : Session) (h : session.pending = [])
    (answers : List (Answer × Scroll)) :
    (session.run page (promptMoves answers)).log =
      session.log ++ (page.ticks session.loop answers).flatten := by
  induction answers generalizing session with
  | nil => exact (List.append_nil _).symm
  | cons first rest ih =>
    obtain ⟨answer, scroll⟩ := first
    cases answer with
    | failed =>
      have hstep : (session.step page .ask).step page (.fail 0) =
          (session.step page .ask).settle page 0 .failed scroll := by
        simp only [step, h]
        rfl
      rw [promptMoves, run_cons, run_cons, hstep, settle_ask page session h, ih]
      · simp [Page.ticks]
      · exact h
    | stamps lastModified etag =>
      have hstep : ((session.step page (.publish lastModified etag)).step page .ask).step page
          (.arrive 0 scroll) =
          ((session.step page (.publish lastModified etag)).step page .ask).settle page 0
            (.stamps lastModified etag) scroll := by
        simp only [step, h]
        rfl
      rw [promptMoves, run_cons, run_cons, run_cons, hstep,
        settle_ask page (session.step page (.publish lastModified etag)) h, ih]
      · simp [Page.ticks, step]
      · exact h

/-! ## Pages that do not change -/

/-- All stamps on their way are the one of the server. -/
def Settled (session : Session) : Prop :=
  ∀ answer ∈ session.pending, answer.stamp? = session.server.stamp?

theorem overtakings_of_settled (h : session.Settled) (move : Move) :
    session.overtakings move = 0 := by
  cases move with
  | arrive older scroll =>
    cases hanswer : session.pending[older]? with
    | none => simp only [overtakings, hanswer]
    | some answer =>
      have hmem := List.mem_of_getElem? hanswer
      rw [overtakings_arrive_eq hanswer, if_pos]
      intro other hother
      rw [h other (List.mem_of_mem_take hother), h answer hmem]
  | _ => rfl

/-- Answers come and go, but without a change none gets another stamp. -/
theorem Settled.step (h : session.Settled) (page : Page) {move : Move}
    (hmove : session.changes move = 0) : (session.step page move).Settled := by
  have herase (older : Nat) (answer : Answer) (scroll : Scroll) :
      (session.settle page older answer scroll).Settled :=
    fun other hother => h other (List.mem_of_mem_eraseIdx hother)
  cases move with
  | publish lastModified etag =>
    unfold changes at hmove
    dsimp only at hmove
    split at hmove
    · rename_i hsame
      intro answer hanswer
      exact (h answer hanswer).trans hsame.symm
    · omega
  | ask =>
    intro answer hanswer
    rcases List.mem_append.mp hanswer with hanswer | hanswer
    · exact h answer hanswer
    · rw [List.mem_singleton.mp hanswer]
      rfl
  | arrive older scroll =>
    rw [step_arrive_eq]
    cases session.pending[older]? with
    | none => exact h
    | some answer => exact herase older answer scroll
  | fail older =>
    rw [step_fail_eq]
    cases session.pending[older]? with
    | none => exact h
    | some answer => exact herase older .failed {}

theorem total_overtakings_of_settled (h : session.Settled) (page : Page) {moves : List Move}
    (hmoves : session.total page changes moves = 0) : session.total page overtakings moves = 0 := by
  induction moves generalizing session with
  | nil => rfl
  | cons move rest ih =>
    unfold total at hmoves ⊢
    have hmove : session.changes move = 0 := by omega
    have hrest := ih (h.step page hmove) (by omega)
    rw [overtakings_of_settled h move, hrest]

end Session

/-! ## The main result -/

open Session

/-- One if the page's own date is known and is not the stamp with which the server answers. -/
def misdated (page : Page) (answer : Answer) : Nat :=
  if page.lastModified = [] ∨ answer.stamp? = some page.lastModified then 0 else 1

theorem differs_start (page : Page) (answer : Answer) :
    differs (Loop.start page.lastModified).lastSeen answer.stamp? = misdated page answer := by
  unfold differs misdated Loop.start nonEmpty?
  by_cases hempty : page.lastModified = []
  · simp [hempty]
  · simp [hempty, eq_comm]

/-- **How often a page is reloaded**, for every history of the server's stamps and every order in
which questions are asked and answered. Every reload stands for a change on the server, but for two
for each answer that overtakes one with another stamp, and for one if the page's own date is not the
stamp with which it was loaded. So the page is reloaded no more often than it changes if no answer
overtakes another and the date is right, and never if it does not change and the date is right. -/
theorem reloads_le (page : Page) (lastModified etag : Option Text) (moves : List Move) :
    let start := Session.load page lastModified etag
    let reloads := (start.run page moves).reloads
    let changes := start.total page changes moves
    let overtakings := start.total page overtakings moves
    reloads ≤ changes + 2 * overtakings + misdated page start.server ∧
      (misdated page start.server = 0 → overtakings = 0 → reloads ≤ changes) ∧
      (misdated page start.server = 0 → changes = 0 → reloads = 0) := by
  intro start reloads changes overtakings
  have hrun := reloads_run_le page start moves
  have hstart : differences start.row = misdated page start.server := by
    rw [← differs_start]
    exact Nat.add_zero _
  have hlog : start.reloads = 0 := rfl
  have hsettled : start.Settled := fun answer hanswer => absurd hanswer List.not_mem_nil
  have hstill : changes = 0 → overtakings = 0 := fun h =>
    total_overtakings_of_settled hsettled page h
  have hbound : reloads ≤ changes + 2 * overtakings + misdated page start.server := by
    rw [hstart, hlog] at hrun
    omega
  refine ⟨hbound, ?_, ?_⟩
  · intro hdate hnone
    omega
  · intro hdate hchanges
    have hovertakings := hstill hchanges
    omega

/-- A page with its date in the way of browsers. -/
def localPage : Page where
  address := "page.html?reload=1"
  query := "?reload=1"
  lastModified := "11/16/2026 08:00:00"
  stored := none
  storeWorks := true

/-- A page whose date is written as its server writes it. -/
def datedPage : Page := { localPage with lastModified := "A" }

/-- Such a page is reloaded once if it changes once and every answer arrives in its turn. -/
theorem reloads_le_datedPage :
    misdated datedPage (.stamps (some "A") none) = 0 ∧
      ((Session.load datedPage (some "A") none).run datedPage
        [.ask, .publish (some "B") none, .ask, .arrive 0 {}, .arrive 0 {}]).reloads ≤ 1 :=
  ⟨by decide, (reloads_le datedPage (some "A") none
    [.ask, .publish (some "B") none, .ask, .arrive 0 {}, .arrive 0 {}]).2.1 (by decide) (by decide)⟩

/-- A page that changes once, with a question before the change and two after it. The answer to the
second question overtakes that to the first. -/
def overtakenMoves : List Move :=
  [.ask, .publish (some "B") none, .ask, .arrive 1 {}, .arrive 0 {}, .ask, .arrive 0 {}]

/-- **A page can be reloaded more often than it changes.** The first one has not changed at all and
is reloaded at the first answer. The second one has the right date and changes once, and is reloaded
three times. -/
theorem not_reloads_le_changes :
    let start := Session.load localPage (some "Mon, 16 Nov 2026 08:00:00 GMT") none
    let moves := [Move.ask, .arrive 0 {}]
    let other := Session.load datedPage (some "A") none
    (start.total localPage changes moves = 0 ∧ start.total localPage overtakings moves = 0 ∧
        (start.run localPage moves).reloads = 1) ∧
      (misdated datedPage other.server = 0 ∧ other.total datedPage changes overtakenMoves = 1 ∧
        other.total datedPage overtakings overtakenMoves = 1 ∧
        (other.run datedPage overtakenMoves).reloads = 3) := by
  decide

end Folio.Reload
