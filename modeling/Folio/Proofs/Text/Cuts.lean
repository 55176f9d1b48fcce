import Folio.Proofs.Text.Lines

/-!
# Cuts

A text is cut at the first place where a mark stands. If the mark is one character, the cut is the
one whose left side does not have it (`cutAt_eq_some_iff`), and there is none exactly if the text
does not have it (`cutAt_eq_none_iff`).
-/

namespace Folio.Text

variable {text mark before after : Text} {c : Char}

theorem cutAt_eq_none_iff : text.cutAt [c] = none ↔ c ∉ text := by
  induction text with
  | nil => simp [cutAt]
  | cons d text ih =>
    by_cases hd : c = d
    · simp [cutAt, hd]
    · simp [cutAt, hd, ih]

/-- The right side may have the mark again. -/
theorem cutAt_append (after : Text) (h : c ∉ before) :
    (before ++ c :: after).cutAt [c] = some (before, after) := by
  induction before with
  | nil => simp [cutAt]
  | cons d before ih =>
    obtain ⟨hd, hbefore⟩ : c ≠ d ∧ c ∉ before := by simpa using h
    simp [cutAt, hd, ih hbefore]

theorem cutAt_eq_some_iff :
    text.cutAt [c] = some (before, after) ↔ text = before ++ c :: after ∧ c ∉ before := by
  constructor
  · intro h
    have hmem : c ∈ text := by
      by_contra hnot
      rw [cutAt_eq_none_iff.mpr hnot] at h
      cases h
    obtain ⟨left, right, rfl, hleft⟩ := List.eq_append_cons_of_mem hmem
    rw [cutAt_append right hleft] at h
    cases h
    exact ⟨rfl, hleft⟩
  · rintro ⟨rfl, hbefore⟩
    exact cutAt_append after hbefore

/-- The two sides of a cut are parts of the text. -/
theorem mem_of_cutAt (h : text.cutAt mark = some (before, after)) :
    ∀ c ∈ before ++ after, c ∈ text := by
  induction text generalizing before with
  | nil => cases h
  | cons d text ih =>
    rw [cutAt] at h
    split at h
    · cases h
      intro c hc
      exact List.mem_of_mem_drop hc
    · obtain ⟨⟨before', after'⟩, hcut, hpair⟩ := Option.map_eq_some_iff.mp h
      cases hpair
      intro c hc
      rcases List.mem_cons.mp hc with rfl | hc
      · exact List.mem_cons_self
      · exact List.mem_cons_of_mem _ (ih hcut c hc)

theorem singleLine_of_cutAt (htext : SingleLine text) (h : text.cutAt mark = some (before, after)) :
    SingleLine before ∧ SingleLine after :=
  singleLine_append.mp fun c hc => htext c (mem_of_cutAt h c hc)

end Folio.Text
