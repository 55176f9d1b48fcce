/-!
# Results and failures

What a reader gives is a result or the cause of a failure. `Outcome` says of both at once what they
satisfy, and is built up along the steps of the reader.
-/

namespace Folio

theorem bind_eq_ok_iff {ε α β : Type} {first : Except ε α} {next : α → Except ε β} {value : β} :
    first >>= next = .ok value ↔ ∃ found, first = .ok found ∧ next found = .ok value := by
  cases first with
  | error error =>
    constructor
    · intro h
      cases h
    · rintro ⟨_, ⟨⟩, _⟩
  | ok found =>
    constructor
    · intro h
      exact ⟨found, rfl, h⟩
    · rintro ⟨_, ⟨⟩, h⟩
      exact h

theorem bind_eq_error_iff {ε α β : Type} {first : Except ε α} {next : α → Except ε β} {error : ε} :
    first >>= next = .error error ↔
      first = .error error ∨ ∃ found, first = .ok found ∧ next found = .error error := by
  cases first with
  | error other =>
    constructor
    · intro h
      exact .inl (congrArg Except.error (Except.error.inj h))
    · rintro (h | ⟨_, ⟨⟩, _⟩)
      exact congrArg Except.error (Except.error.inj h)
  | ok found =>
    constructor
    · intro h
      exact .inr ⟨found, rfl, h⟩
    · rintro (⟨⟨⟩⟩ | ⟨_, ⟨⟩, h⟩)
      exact h

/-- A fold fails at the first of its items that is refused. -/
theorem exists_of_foldlM_eq_error {ε α β : Type} {step : β → α → Except ε β} {items : List α}
    {start : β} {error : ε} (h : items.foldlM step start = .error error) :
    ∃ front item back before, items = front ++ item :: back ∧
      front.foldlM step start = .ok before ∧ step before item = .error error := by
  induction items generalizing start with
  | nil => cases h
  | cons item items ih =>
    rw [List.foldlM_cons] at h
    rcases bind_eq_error_iff.mp h with hrefused | ⟨next, hnext, hrest⟩
    · exact ⟨[], item, items, start, rfl, rfl, hrefused⟩
    · obtain ⟨front, other, back, before, rfl, hfront, hother⟩ := ih hrest
      refine ⟨item :: front, other, back, before, rfl, ?_, hother⟩
      rw [List.foldlM_cons, hnext]
      exact hfront

theorem map_eq_ok_iff {ε α β : Type} {first : Except ε α} {next : α → β} {value : β} :
    first.map next = .ok value ↔ ∃ found, first = .ok found ∧ next found = value := by
  cases first with
  | error error =>
    constructor
    · intro h
      cases h
    · rintro ⟨_, ⟨⟩, _⟩
  | ok found =>
    constructor
    · intro h
      exact ⟨found, rfl, Except.ok.inj h⟩
    · rintro ⟨_, ⟨⟩, h⟩
      exact congrArg Except.ok h

theorem eq_ok_of_mapError {ε δ α : Type} {wrap : ε → δ} {result : Except ε α} {value : α}
    (h : result.mapError wrap = .ok value) : result = .ok value := by
  cases result with
  | error error => cases h
  | ok found => exact congrArg Except.ok (Except.ok.inj h)

theorem mapError_eq_ok_iff {ε δ α : Type} {wrap : ε → δ} {result : Except ε α} {value : α} :
    result.mapError wrap = .ok value ↔ result = .ok value := by
  refine ⟨eq_ok_of_mapError, ?_⟩
  rintro rfl
  rfl

/-- Every result satisfies `Q`, and every cause of a failure satisfies `E`. -/
def Outcome {ε α : Type} (x : Except ε α) (Q : α → Prop) (E : ε → Prop) : Prop :=
  (∀ a, x = .ok a → Q a) ∧ ∀ e, x = .error e → E e

namespace Outcome

variable {ε α β : Type} {Q : α → Prop} {R : β → Prop} {E : ε → Prop}

theorem ok {a : α} (h : Q a) : Outcome (.ok a : Except ε α) Q E :=
  ⟨fun _ hb => Except.ok.inj hb ▸ h, fun _ he => nomatch he⟩

theorem error {e : ε} (h : E e) : Outcome (.error e : Except ε α) Q E :=
  ⟨fun _ hb => (nomatch hb), fun _ he => Except.error.inj he ▸ h⟩

theorem bind {x : Except ε α} {f : α → Except ε β} (hx : Outcome x Q E)
    (hf : ∀ a, Q a → Outcome (f a) R E) : Outcome (x >>= f) R E := by
  cases x with
  | error e => exact .error (hx.2 e rfl)
  | ok a => exact hf a (hx.1 a rfl)

theorem map {x : Except ε α} {f : α → β} (hx : Outcome x Q E) (hf : ∀ a, Q a → R (f a)) :
    Outcome (x.map f) R E := by
  cases x with
  | error e => exact .error (hx.2 e rfl)
  | ok a => exact .ok (hf a (hx.1 a rfl))

theorem mapError {δ : Type} {wrap : ε → δ} {D : δ → Prop} {x : Except ε α} (hx : Outcome x Q E)
    (hwrap : ∀ e, E e → D (wrap e)) : Outcome (x.mapError wrap) Q D := by
  cases x with
  | error e => exact .error (hwrap e (hx.2 e rfl))
  | ok a => exact .ok (hx.1 a rfl)

/-- What each step of a fold keeps, the fold keeps. -/
theorem foldlM {items : List α} {f : β → α → Except ε β} {b : β} (hb : R b)
    (hf : ∀ a ∈ items, ∀ b, R b → Outcome (f b a) R E) : Outcome (items.foldlM f b) R E := by
  induction items generalizing b with
  | nil => exact .ok hb
  | cons a items ih =>
    rw [List.foldlM_cons]
    refine bind (hf a List.mem_cons_self b hb) ?_
    intro b' hb'
    exact ih hb' (fun a' ha' => hf a' (List.mem_cons_of_mem _ ha'))

end Outcome

end Folio
