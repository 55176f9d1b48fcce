import Folio.Watch.Debounce
import Mathlib.Algebra.Order.Field.Basic
import Mathlib.Algebra.Order.Ring.Rat
import Mathlib.Data.List.Basic
import Mathlib.Tactic.Linarith

/-!
# Runs keep their interval

Which events start a run depends on the events alone. `starts_append` is the step from which the
rest follows: what the debounce does with later events depends on the earlier ones only through the
start of the last run. `RateLimited` collects what this means for the runs, and `runs_rate_limited`
says that a handler keeps to it whatever its job does and whichever runs fail.

Times are taken from an ordered field, so that there is no rounding.
-/

namespace Folio.Watch

open Text

/-! ## Saves -/

/-- The path has the ending of Markdown files, in letters of either case. -/
def HasMarkdownEnding (path : Text) : Prop :=
  ∃ stem m d, path = stem ++ ['.', m, d] ∧ (m = 'm' ∨ m = 'M') ∧ (d = 'd' ∨ d = 'D')

/-- Only a capital letter changes, and it goes up by the distance of the two alphabets. -/
theorem of_toLower {c d : Char} (h : c.toLower = d) :
    c = d ∨ 65 ≤ c.toNat ∧ c.toNat + 32 = d.toNat := by
  unfold Char.toLower at h
  split at h
  · rename_i hupper
    have hlow : 65 ≤ c.val.toNat := hupper.1
    have hhigh : c.val.toNat ≤ 90 := hupper.2
    subst h
    refine .inr ⟨hlow, ?_⟩
    show c.val.toNat + 32 = (c.val + 32).toNat
    rw [UInt32.toNat_add]
    show c.val.toNat + 32 = (c.val.toNat + 32) % 4294967296
    omega
  · exact .inl h

theorem toLower_eq_dot_iff {c : Char} : c.toLower = '.' ↔ c = '.' := by
  constructor
  · intro h
    rcases of_toLower h with hsame | ⟨hlow, hsum⟩
    · exact hsame
    · have hdot : ('.').toNat = 46 := rfl
      omega
  · rintro rfl
    rfl

/-- The two cases of a letter. -/
theorem toLower_eq_letter_iff (low up : Char) (hlow : low.toLower = low) (hup : up.toLower = low)
    (hsum : up.toNat + 32 = low.toNat) (c : Char) : c.toLower = low ↔ c = low ∨ c = up := by
  constructor
  · intro h
    rcases of_toLower h with hsame | ⟨-, hsum'⟩
    · exact .inl hsame
    · exact .inr (Char.toNat_inj.mp (by omega))
  · rintro (rfl | rfl)
    · exact hlow
    · exact hup

theorem isSuffixOf_lowerAscii_iff {path : Text} :
    (".md" : Text).isSuffixOf path.lowerAscii = true ↔ HasMarkdownEnding path := by
  have hm := toLower_eq_letter_iff 'm' 'M' rfl rfl rfl
  have hd := toLower_eq_letter_iff 'd' 'D' rfl rfl rfl
  have hending : (".md" : Text) = ['.', 'm', 'd'] := rfl
  rw [List.isSuffixOf_iff_suffix, hending]
  unfold lowerAscii HasMarkdownEnding
  constructor
  · rintro ⟨front, hfront⟩
    obtain ⟨stem, ending, rfl, -, hmap⟩ := List.map_eq_append_iff.mp hfront.symm
    obtain ⟨c, m, d, rfl⟩ : ∃ c m d, ending = [c, m, d] := by
      have hlength := congrArg List.length hmap
      rw [List.length_map] at hlength
      exact List.length_eq_three.mp hlength
    simp only [List.map_cons, List.map_nil, List.cons.injEq, and_true] at hmap
    obtain ⟨hdot, hm', hd'⟩ := hmap
    obtain rfl := toLower_eq_dot_iff.mp hdot
    exact ⟨stem, m, d, rfl, (hm m).mp hm', (hd d).mp hd'⟩
  · rintro ⟨stem, m, d, rfl, hm', hd'⟩
    refine ⟨stem.map Char.toLower, ?_⟩
    rw [List.map_append, List.map_cons, List.map_cons, List.map_cons, (hm m).mpr hm',
      (hd d).mpr hd']
    rfl

/-- A Markdown file was modified or created. -/
structure Event.Saves {τ : Type} (event : Event τ) : Prop where
  change : event.change = .modified ∨ event.change = .created
  file : event.isFolder = false
  path : HasMarkdownEnding event.path

theorem Event.isSave_iff {τ : Type} {event : Event τ} : event.isSave = true ↔ event.Saves := by
  unfold Event.isSave
  simp only [Bool.and_eq_true, Bool.or_eq_true, beq_iff_eq, Bool.not_eq_true',
    isSuffixOf_lowerAscii_iff]
  exact ⟨fun h => ⟨h.1.1, h.1.2, h.2⟩, fun h => ⟨⟨h.change, h.file⟩, h.path⟩⟩

/-! ## Starts of runs -/

/-- The starts of the runs: the times of those events that start one. -/
def startTimes {τ : Type} (events : List (Event τ)) (starts : List Bool) : List τ :=
  ((events.zip starts).filter (·.2)).map (·.1.time)

/-- The start of the last run, zero if there is none. -/
def lastStart {τ : Type} [Zero τ] (events : List (Event τ)) (starts : List Bool) : τ :=
  (startTimes events starts).getLastD 0

section Times

variable {τ : Type} {event : Event τ} {events : List (Event τ)} {starts : List Bool}

@[simp] theorem startTimes_nil : startTimes ([] : List (Event τ)) starts = [] := rfl

@[simp] theorem startTimes_cons_true :
    startTimes (event :: events) (true :: starts) = event.time :: startTimes events starts := rfl

@[simp] theorem startTimes_cons_false :
    startTimes (event :: events) (false :: starts) = startTimes events starts := rfl

theorem startTimes_append (h : events.length = starts.length) (more : List (Event τ))
    (moreStarts : List Bool) :
    startTimes (events ++ more) (starts ++ moreStarts) =
      startTimes events starts ++ startTimes more moreStarts := by
  unfold startTimes
  rw [List.zip_append h, List.filter_append, List.map_append]

/-- Answers behind those for the events do not count. -/
theorem startTimes_of_append (h : events.length = starts.length) (moreStarts : List Bool) :
    startTimes events (starts ++ moreStarts) = startTimes events starts := by
  have happend := startTimes_append h [] moreStarts
  rwa [List.append_nil, startTimes_nil, List.append_nil] at happend

theorem exists_of_mem_startTimes {start : τ} (h : start ∈ startTimes events starts) :
    ∃ event ∈ events, event.time = start := by
  unfold startTimes at h
  obtain ⟨⟨event, started⟩, hmem, rfl⟩ := List.mem_map.mp h
  exact ⟨event, (List.of_mem_zip ((List.mem_filter.mp hmem).1)).1, rfl⟩

/-- The last start is one of the starts, if there is any. -/
theorem lastStart_mem_or [Zero τ] (events : List (Event τ)) (starts : List Bool) :
    lastStart events starts ∈ startTimes events starts ∨ lastStart events starts = 0 := by
  unfold lastStart
  cases hlast : startTimes events starts with
  | nil => exact .inr rfl
  | cons first rest =>
    rw [List.getLastD_cons, ← List.getLast_eq_getLastD (List.cons_ne_nil first rest)]
    exact .inl (List.getLast_mem _)

/-- Starts of earlier runs are not later, if the clock does not go back. -/
theorem le_of_mem_startTimes [LE τ] {earlier later : List (Event τ)}
    (hsorted : ((earlier ++ event :: later).map (·.time)).Pairwise (· ≤ ·))
    {start : τ} (h : start ∈ startTimes earlier starts) : start ≤ event.time := by
  obtain ⟨other, hother, rfl⟩ := exists_of_mem_startTimes h
  rw [List.pairwise_map, List.pairwise_append] at hsorted
  exact hsorted.2.2 other hother event List.mem_cons_self

end Times

section Runs

variable {τ : Type} [Field τ] [LinearOrder τ] {state next : Debounce τ} {event : Event τ}

/-- What an event does: a save that comes an interval after the last run starts one, and all others
do nothing. -/
theorem handle?_eq_some_iff :
    state.handle? event = some next ↔
      event.Saves ∧ state.interval ≤ event.time - state.last ∧
        next = ⟨state.interval, event.time⟩ := by
  unfold Debounce.handle? Debounce.start?
  by_cases hsave : event.isSave = true
  · have hsaves := Event.isSave_iff.mp hsave
    rw [if_pos hsave]
    by_cases hearly : event.time - state.last < state.interval
    · simp [hearly, hsaves]
    · simp [hearly, hsaves, not_lt.mp hearly, eq_comm]
  · have hother : ¬ event.Saves := fun h => hsave (Event.isSave_iff.mpr h)
    simp [hsave, hother]

theorem handle?_eq_none_iff :
    state.handle? event = none ↔ (event.Saves → event.time - state.last < state.interval) := by
  rw [Option.eq_none_iff_forall_ne_some]
  constructor
  · intro h hsaves
    by_contra hlate
    exact h _ (handle?_eq_some_iff.mpr ⟨hsaves, not_lt.mp hlate, rfl⟩)
  · intro h next hnext
    obtain ⟨hsaves, hlate, -⟩ := handle?_eq_some_iff.mp hnext
    exact absurd (h hsaves) (not_lt.mpr hlate)

theorem starts_cons_of_none {rest : List (Event τ)} (h : state.handle? event = none) :
    state.starts (event :: rest) = false :: state.starts rest := by
  rw [Debounce.starts, h]

theorem starts_cons_of_some {rest : List (Event τ)} (h : state.handle? event = some next) :
    state.starts (event :: rest) = true :: next.starts rest := by
  rw [Debounce.starts, h]

/-- What the job does, and whether it fails, does not matter for the runs. -/
theorem map_isSome_serve {σ ε : Type} (job : ExceptT ε (StateM σ) Unit) (surroundings : σ)
    (state : Debounce τ) (events : List (Event τ)) :
    (state.serve job surroundings events).map Option.isSome = state.starts events := by
  induction events generalizing state surroundings with
  | nil => rfl
  | cons event rest ih =>
    rw [Debounce.serve]
    cases hhandle : state.handle? event with
    | none =>
      rw [starts_cons_of_none hhandle, ← ih]
      rfl
    | some next =>
      rw [starts_cons_of_some hhandle, ← ih (job.run.run surroundings).2 next]
      rfl

theorem length_starts (state : Debounce τ) (events : List (Event τ)) :
    (state.starts events).length = events.length := by
  induction events generalizing state with
  | nil => rfl
  | cons event rest ih =>
    cases hhandle : state.handle? event with
    | none => rw [starts_cons_of_none hhandle, List.length_cons, ih, List.length_cons]
    | some next => rw [starts_cons_of_some hhandle, List.length_cons, ih, List.length_cons]

/-- The debounce behind some events: it knows the start of the last run. -/
def Debounce.behind (state : Debounce τ) (events : List (Event τ)) : Debounce τ :=
  ⟨state.interval, (startTimes events (state.starts events)).getLastD state.last⟩

/-- Earlier events matter for later ones only through the start of the last run. -/
theorem starts_append (state : Debounce τ) (earlier later : List (Event τ)) :
    state.starts (earlier ++ later) =
      state.starts earlier ++ (state.behind earlier).starts later := by
  induction earlier generalizing state with
  | nil => rfl
  | cons event rest ih =>
    unfold Debounce.behind
    cases hhandle : state.handle? event with
    | none =>
      rw [List.cons_append, starts_cons_of_none hhandle, starts_cons_of_none hhandle, ih,
        startTimes_cons_false, List.cons_append]
      rfl
    | some next =>
      obtain ⟨-, -, rfl⟩ := handle?_eq_some_iff.mp hhandle
      rw [List.cons_append, starts_cons_of_some hhandle, starts_cons_of_some hhandle, ih,
        startTimes_cons_true, List.getLastD_cons, List.cons_append]
      rfl

theorem startTimes_starts_append (state : Debounce τ) (earlier later : List (Event τ)) :
    startTimes (earlier ++ later) (state.starts (earlier ++ later)) =
      startTimes earlier (state.starts earlier) ++
        startTimes later ((state.behind earlier).starts later) := by
  rw [starts_append, startTimes_append (length_starts state earlier).symm]

theorem startTimes_earlier (state : Debounce τ) (earlier later : List (Event τ)) :
    startTimes earlier (state.starts (earlier ++ later)) =
      startTimes earlier (state.starts earlier) := by
  rw [starts_append, startTimes_of_append (length_starts state earlier).symm]

/-- What happens at an event is decided by the debounce behind the events before it. -/
theorem getElem?_starts (state : Debounce τ) (earlier later : List (Event τ)) :
    (state.starts (earlier ++ event :: later))[earlier.length]? =
      some ((state.behind earlier).handle? event).isSome := by
  rw [starts_append, ← length_starts state earlier, List.getElem?_append_right le_rfl, Nat.sub_self]
  cases hhandle : (state.behind earlier).handle? event with
  | none => rw [starts_cons_of_none hhandle]; rfl
  | some next => rw [starts_cons_of_some hhandle]; rfl

end Runs

/-! ## Distances between runs -/

section Distances

variable {τ : Type} [Field τ] [LinearOrder τ] [IsStrictOrderedRing τ]

/-- Runs start an interval apart, and an interval after the run before them all. -/
theorem pairwise_startTimes (state : Debounce τ) (h : 0 ≤ state.interval)
    (events : List (Event τ)) :
    (∀ start ∈ startTimes events (state.starts events),
        state.interval ≤ start - state.last) ∧
      (startTimes events (state.starts events)).Pairwise
        fun first second => state.interval ≤ second - first := by
  induction events generalizing state with
  | nil => simp
  | cons event rest ih =>
    cases hhandle : state.handle? event with
    | none =>
      rw [starts_cons_of_none hhandle, startTimes_cons_false]
      exact ih state h
    | some next =>
      obtain ⟨-, hlate, rfl⟩ := handle?_eq_some_iff.mp hhandle
      obtain ⟨hafter, hpairwise⟩ := ih ⟨state.interval, event.time⟩ h
      rw [starts_cons_of_some hhandle, startTimes_cons_true]
      refine ⟨List.forall_mem_cons.mpr ⟨hlate, ?_⟩, List.pairwise_cons.mpr ⟨hafter, hpairwise⟩⟩
      intro start hstart
      have hgap : state.interval ≤ start - event.time := hafter start hstart
      linarith

/-- Times that are an interval apart fill at least that many intervals. -/
theorem add_length_mul_le {interval first bound : τ} {times : List τ}
    (hpairwise : (first :: times).Pairwise fun a b => interval ≤ b - a)
    (hbound : ∀ time ∈ first :: times, time ≤ bound) :
    first + times.length * interval ≤ bound := by
  induction times generalizing first with
  | nil => simpa using hbound first List.mem_cons_self
  | cons second rest ih =>
    obtain ⟨hfirst, hrest⟩ := List.pairwise_cons.mp hpairwise
    have hgap : interval ≤ second - first := hfirst second List.mem_cons_self
    have hih := ih hrest fun time htime => hbound time (List.mem_cons_of_mem _ htime)
    rw [List.length_cons, Nat.cast_add, Nat.cast_one, add_mul, one_mul]
    linarith

/-- The number of times in a window that are an interval apart. -/
theorem countP_window_le {interval : τ} (hinterval : 0 < interval) {times : List τ}
    (hpairwise : times.Pairwise fun a b => interval ≤ b - a) (opening : τ) {span : τ}
    (hspan : 0 ≤ span) :
    (times.countP (fun time => opening ≤ time ∧ time ≤ opening + span) : τ) ≤
      span / interval + 1 := by
  have hinside := hpairwise.filter (fun time => decide (opening ≤ time ∧ time ≤ opening + span))
  have hmem : ∀ time ∈ times.filter (fun time => decide (opening ≤ time ∧ time ≤ opening + span)),
      opening ≤ time ∧ time ≤ opening + span := by
    intro time htime
    exact of_decide_eq_true (List.mem_filter.mp htime).2
  rw [List.countP_eq_length_filter]
  cases hfilter : times.filter (fun time => decide (opening ≤ time ∧ time ≤ opening + span)) with
  | nil =>
    have hratio : 0 ≤ span / interval := div_nonneg hspan hinterval.le
    rw [List.length_nil, Nat.cast_zero]
    linarith
  | cons first rest =>
    rw [hfilter] at hinside hmem
    have hfill := add_length_mul_le hinside fun time htime => (hmem time htime).2
    have hfirst := (hmem first List.mem_cons_self).1
    have hratio : (rest.length : τ) ≤ span / interval := by
      rw [le_div_iff₀ hinterval]
      linarith
    rw [List.length_cons, Nat.cast_add, Nat.cast_one]
    linarith

end Distances

/-! ## The main result -/

/-- How runs follow from events: `starts` says for each event whether it starts a run. -/
structure RateLimited {τ : Type} [Field τ] [LinearOrder τ] (interval : τ)
    (events : List (Event τ)) (starts : List Bool) : Prop where
  length_eq : starts.length = events.length
  /-- A run starts at an event exactly if the event is a save that comes at least an interval after
  the start of the run before it. -/
  starts_iff : ∀ earlier event later, events = earlier ++ event :: later →
    (starts[earlier.length]? = some true ↔
      event.Saves ∧ interval ≤ event.time - lastStart earlier starts)
  /-- Any two runs start at least an interval apart. -/
  apart : (startTimes events starts).Pairwise fun first second => interval ≤ second - first
  /-- If the clock does not go back, a save that starts no run comes less than an interval after the
  start of one, or after zero. -/
  ignored : (events.map (·.time)).Pairwise (· ≤ ·) →
    ∀ earlier event later, events = earlier ++ event :: later → event.Saves →
      starts[earlier.length]? = some false →
        (∃ start ∈ startTimes earlier starts,
          start ≤ event.time ∧ event.time - start < interval) ∨ event.time < interval
  /-- The number of runs in a window of time. -/
  window : 0 < interval → ∀ opening span : τ, 0 ≤ span →
    ((startTimes events starts).countP
        (fun start => opening ≤ start ∧ start ≤ opening + span) : τ) ≤
      span / interval + 1

section Main

variable {τ : Type} [Field τ] [LinearOrder τ]

/-- The debounce behind the earlier events, as the answers tell it. -/
theorem behind_eq (interval : τ) (earlier later : List (Event τ)) :
    Debounce.behind ⟨interval, 0⟩ earlier =
      ⟨interval, lastStart earlier (Debounce.starts ⟨interval, 0⟩ (earlier ++ later))⟩ := by
  unfold Debounce.behind lastStart
  rw [startTimes_earlier]

theorem rateLimited_starts [IsStrictOrderedRing τ] {interval : τ} (h : 0 ≤ interval)
    (events : List (Event τ)) :
    RateLimited interval events (Debounce.starts ⟨interval, 0⟩ events) := by
  obtain ⟨-, hpairwise⟩ := pairwise_startTimes ⟨interval, 0⟩ h events
  refine ⟨length_starts _ events, ?_, hpairwise, ?_, ?_⟩
  · rintro earlier event later rfl
    rw [getElem?_starts, behind_eq interval earlier (event :: later), Option.some_inj,
      Option.isSome_iff_exists]
    simp only [handle?_eq_some_iff, exists_and_left, exists_eq, and_true]
  · rintro hsorted earlier event later rfl hsaves hstarts
    rw [getElem?_starts, behind_eq interval earlier (event :: later), Option.some_inj,
      Option.isSome_eq_false_iff, Option.isNone_iff_eq_none, handle?_eq_none_iff] at hstarts
    have hearly := hstarts hsaves
    rcases lastStart_mem_or earlier
        (Debounce.starts ⟨interval, 0⟩ (earlier ++ event :: later)) with hmem | hzero
    · exact .inl ⟨_, hmem, le_of_mem_startTimes hsorted hmem, hearly⟩
    · rw [hzero, sub_zero] at hearly
      exact .inr hearly
  · intro hinterval opening span hspan
    exact countP_window_le hinterval hpairwise opening hspan

/-- **Runs keep their interval**, whatever the job does and whichever of its runs fail. -/
theorem runs_rate_limited [IsStrictOrderedRing τ] {interval : τ} (h : 0 ≤ interval)
    (events : List (Event τ)) :
    ∃ starts, RateLimited interval events starts ∧
      ∀ {σ ε : Type} (job : ExceptT ε (StateM σ) Unit) (surroundings : σ),
        ((⟨interval, 0⟩ : Debounce τ).serve job surroundings events).map Option.isSome = starts :=
  ⟨_, rateLimited_starts h events, fun job surroundings =>
    map_isSome_serve job surroundings _ events⟩

end Main

/-- A job that counts its runs and fails at those with the given numbers. -/
def failingAt (numbers : List Nat) : ExceptT Nat (StateM Nat) Unit := do
  modify (· + 1)
  let number ← get
  if number ∈ numbers then throw number

/-- Two saves of one file within a quarter of a second, changes that do not count, and a save that
comes exactly a quarter of a second after the first. -/
def burst : List (Event ℚ) := [
  ⟨1, "a.md", .modified, false⟩,
  ⟨9/8, "a.md", .modified, false⟩,
  ⟨5/4, "notes.md", .modified, true⟩,
  ⟨5/4, "a.md", .deleted, false⟩,
  ⟨5/4, "B.MD", .created, false⟩]

/-- The first and the last event of the burst start a run, also if the first run fails. -/
theorem runs_rate_limited_burst :
    RateLimited (1/4) burst [true, false, false, false, true] ∧
      (⟨1/4, 0⟩ : Debounce ℚ).serve (failingAt [1]) 0 burst =
        [some (.error 1), none, none, none, some (.ok ())] := by
  have hserve : (⟨1/4, 0⟩ : Debounce ℚ).serve (failingAt [1]) 0 burst =
      [some (.error 1), none, none, none, some (.ok ())] := by decide +kernel
  obtain ⟨starts, hlimited, hstarts⟩ :=
    runs_rate_limited (show (0 : ℚ) ≤ 1/4 by norm_num) burst
  obtain rfl : [true, false, false, false, true] = starts := by
    rw [← hstarts (failingAt [1]) 0, hserve]
    rfl
  exact ⟨hlimited, hserve⟩

end Folio.Watch
