import Folio.Proofs.Watch.RateLimit

/-!
# Saves that are not built

A save that comes less than an interval after the start of a run starts none, and no run is put off
until later. So a save is built only if another save follows it late enough: `rebuilt_iff` says when
that is, for every sequence of events and whichever runs fail. The last save of a burst may wait for
a run that never starts (`not_rebuilt_second_of_two`).
-/

namespace Folio.Watch

section Rebuilt

variable {τ : Type} [Field τ] [LinearOrder τ]

/-- A run starts at the time or later. -/
def Rebuilt (time : τ) (events : List (Event τ)) (starts : List Bool) : Prop :=
  ∃ start ∈ startTimes events starts, time ≤ start

/-- Runs start as soon as a save comes late enough. -/
theorem exists_start_iff (state : Debounce τ) (events : List (Event τ)) :
    (∃ start, start ∈ startTimes events (state.starts events)) ↔
      ∃ event ∈ events, event.Saves ∧ state.interval ≤ event.time - state.last := by
  induction events with
  | nil => simp
  | cons event rest ih =>
    cases hhandle : state.handle? event with
    | none =>
      have hearly : ¬ (event.Saves ∧ state.interval ≤ event.time - state.last) := by
        rintro ⟨hsaves, hlate⟩
        exact absurd (handle?_eq_none_iff.mp hhandle hsaves) (not_lt.mpr hlate)
      rw [starts_cons_of_none hhandle, startTimes_cons_false, ih]
      simp [hearly]
    | some next =>
      obtain ⟨hsaves, hlate, -⟩ := handle?_eq_some_iff.mp hhandle
      rw [starts_cons_of_some hhandle, startTimes_cons_true]
      exact ⟨fun _ => ⟨event, List.mem_cons_self, hsaves, hlate⟩,
        fun _ => ⟨event.time, List.mem_cons_self⟩⟩

variable {interval : τ} {earlier later : List (Event τ)} {event : Event τ}

/-- Where the clock does not go back, a run at the time of an event or later is one that started at
that very time, or one that the event or a later one starts. -/
theorem rebuilt_iff_or
    (hsorted : ((earlier ++ event :: later).map (·.time)).Pairwise (· ≤ ·)) :
    Rebuilt event.time (earlier ++ event :: later)
        (Debounce.starts ⟨interval, 0⟩ (earlier ++ event :: later)) ↔
      event.time ∈ startTimes earlier (Debounce.starts ⟨interval, 0⟩ earlier) ∨
        ∃ start, start ∈ startTimes (event :: later)
          ((Debounce.behind ⟨interval, 0⟩ earlier).starts (event :: later)) := by
  unfold Rebuilt
  rw [startTimes_starts_append]
  constructor
  · rintro ⟨start, hmem, hle⟩
    rcases List.mem_append.mp hmem with hearlier | hlater
    · obtain rfl := le_antisymm hle (le_of_mem_startTimes hsorted hearlier)
      exact .inl hearlier
    · exact .inr ⟨start, hlater⟩
  · rintro (hearlier | ⟨start, hlater⟩)
    · exact ⟨event.time, List.mem_append_left _ hearlier, le_rfl⟩
    · refine ⟨start, List.mem_append_right _ hlater, ?_⟩
      obtain ⟨other, hother, rfl⟩ := exists_of_mem_startTimes hlater
      rw [List.pairwise_map, List.pairwise_append] at hsorted
      rcases List.mem_cons.mp hother with rfl | hother
      · exact le_rfl
      · exact (List.pairwise_cons.mp hsorted.2.1).1 other hother

/-- A save that starts no run comes less than an interval after the start of one, if the clock
starts late enough. -/
theorem rebuilt_or_recent
    (hsorted : ((earlier ++ event :: later).map (·.time)).Pairwise (· ≤ ·))
    (hlate : interval ≤ event.time) (hsaves : event.Saves) :
    Rebuilt event.time (earlier ++ event :: later)
        (Debounce.starts ⟨interval, 0⟩ (earlier ++ event :: later)) ∨
      ∃ start ∈ startTimes earlier (Debounce.starts ⟨interval, 0⟩ (earlier ++ event :: later)),
        start ≤ event.time ∧ event.time - start < interval := by
  by_cases hstarts : interval ≤ event.time -
      lastStart earlier (Debounce.starts ⟨interval, 0⟩ (earlier ++ event :: later))
  · refine .inl ((rebuilt_iff_or hsorted).mpr (.inr ?_))
    rw [exists_start_iff, behind_eq interval earlier (event :: later)]
    exact ⟨event, List.mem_cons_self, hsaves, hstarts⟩
  · rcases lastStart_mem_or earlier
        (Debounce.starts ⟨interval, 0⟩ (earlier ++ event :: later)) with hmem | hzero
    · exact .inr ⟨_, hmem, le_of_mem_startTimes hsorted hmem, not_le.mp hstarts⟩
    · rw [hzero, sub_zero] at hstarts
      exact absurd hlate hstarts

/-- **When a save is built.** Let the clock not go back, and start at the interval or later. A run
starts at the time of a save or later exactly if one has started at that very time, or if the save
itself or a later one comes at least an interval after the start of the last run before it. If
there is none, a run has started less than an interval before the save. Which runs fail does not
matter. -/
theorem rebuilt_iff {events : List (Event τ)}
    (hsorted : (events.map (·.time)).Pairwise (· ≤ ·))
    (hlate : ∀ event ∈ events, interval ≤ event.time) {σ ε : Type}
    (job : ExceptT ε (StateM σ) Unit) (surroundings : σ) {starts : List Bool}
    (hstarts : ((⟨interval, 0⟩ : Debounce τ).serve job surroundings events).map Option.isSome =
      starts)
    (hevents : events = earlier ++ event :: later) (hsaves : event.Saves) :
    (Rebuilt event.time events starts ↔
        event.time ∈ startTimes earlier starts ∨
          ∃ next ∈ event :: later, next.Saves ∧ interval ≤ next.time - lastStart earlier starts) ∧
      (Rebuilt event.time events starts ∨
        ∃ start ∈ startTimes earlier starts,
          start ≤ event.time ∧ event.time - start < interval) := by
  rw [map_isSome_serve] at hstarts
  subst hstarts hevents
  refine ⟨?_, rebuilt_or_recent hsorted (hlate event (by simp)) hsaves⟩
  rw [rebuilt_iff_or hsorted, exists_start_iff, startTimes_earlier,
    behind_eq interval earlier (event :: later)]

end Rebuilt

/-- A save of a file at a time. -/
def saveAt (time : ℚ) : Event ℚ := ⟨time, "a.md", .modified, false⟩

theorem saves_saveAt (time : ℚ) : (saveAt time).Saves := Event.isSave_iff.mp rfl

/-- Of three saves in a quarter of a second the second is built with the third, also if the run at
the first one fails. -/
theorem rebuilt_second_of_three :
    (⟨1/4, 0⟩ : Debounce ℚ).serve (failingAt [1]) 0 [saveAt 1, saveAt (9/8), saveAt (5/4)] =
        [some (.error 1), none, some (.ok ())] ∧
      Rebuilt (9/8) [saveAt 1, saveAt (9/8), saveAt (5/4)] [true, false, true] := by
  have hserve : (⟨1/4, 0⟩ : Debounce ℚ).serve (failingAt [1]) 0
      [saveAt 1, saveAt (9/8), saveAt (5/4)] = [some (.error 1), none, some (.ok ())] := by
    decide +kernel
  have hsorted : ([saveAt 1, saveAt (9/8), saveAt (5/4)].map (·.time)).Pairwise (· ≤ ·) := by
    decide +kernel
  have hlate : ∀ event ∈ [saveAt 1, saveAt (9/8), saveAt (5/4)], (1/4 : ℚ) ≤ event.time := by
    decide +kernel
  have hsplit : [saveAt 1, saveAt (9/8), saveAt (5/4)] =
      [saveAt 1] ++ saveAt (9/8) :: [saveAt (5/4)] := rfl
  have hiff := (rebuilt_iff hsorted hlate (failingAt [1]) 0 (congrArg (List.map _) hserve) hsplit
    (saves_saveAt _)).1
  refine ⟨hserve, hiff.mpr (.inr ⟨saveAt (5/4), by simp, saves_saveAt _, ?_⟩)⟩
  decide +kernel

/-- Of two saves in an eighth of a second the second is never built: by the end no run has started
since, though no run fails. -/
theorem not_rebuilt_second_of_two :
    (0 : ℚ) ≤ 1/4 ∧ ([saveAt 1, saveAt (9/8)].map (·.time)).Pairwise (· ≤ ·) ∧
      (∀ event ∈ [saveAt 1, saveAt (9/8)], (1/4 : ℚ) ≤ event.time) ∧ (saveAt (9/8)).Saves ∧
      ¬ Rebuilt (saveAt (9/8)).time [saveAt 1, saveAt (9/8)]
        (((⟨1/4, 0⟩ : Debounce ℚ).serve (failingAt []) 0 [saveAt 1, saveAt (9/8)]).map
          Option.isSome) := by
  have hserve : ((⟨1/4, 0⟩ : Debounce ℚ).serve (failingAt []) 0 [saveAt 1, saveAt (9/8)]).map
      Option.isSome = [true, false] := by decide +kernel
  have hstart : ¬ ((9/8 : ℚ) ≤ 1) := by norm_num
  refine ⟨by norm_num, by decide +kernel, by decide +kernel, saves_saveAt _, ?_⟩
  rw [hserve]
  rintro ⟨start, hmem, hle⟩
  obtain rfl : start = 1 := by simpa [saveAt] using hmem
  exact hstart hle

end Folio.Watch
