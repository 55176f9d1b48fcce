import Folio.Directive.Template
import Folio.Proofs.Directive.Resolution

/-!
# Reading templates

How a template is to be read is said by a relation (`Reads`): from the left, a slot wherever one
stands, and a literal character where none does. The relation does not mention how slots are found.
The pieces of a template are its only reading (`reads_iff_eq_pieces`), so filling a template
replaces all its slots at once, and what it puts in is not read again.
-/

namespace Folio.Directive

/-- A name that a slot can have. -/
def IsSlotName (name : Text) : Prop :=
  ∃ first rest, name = first :: rest ∧ isNameStart first = true ∧ ∀ c ∈ rest, isNameChar c = true

/-- The text of a slot. -/
def slotText (name : Text) : Text := '$' :: '{' :: (name ++ ['}'])

/-- The readings of a template. A literal is read only where no slot begins. -/
inductive Reads : Text → List Piece → Prop
  | done : Reads [] []
  | slot {name rest : Text} {pieces : List Piece} (hname : IsSlotName name)
      (hrest : Reads rest pieces) : Reads (slotText name ++ rest) (.slot name :: pieces)
  | literal {c : Char} {rest : Text} {pieces : List Piece}
      (hnone : ∀ name after, IsSlotName name → c :: rest ≠ slotText name ++ after)
      (hrest : Reads rest pieces) : Reads (c :: rest) (.literal c :: pieces)

/-! ## Finding slots -/

theorem slotAt?_slotText {name : Text} (hname : IsSlotName name) (rest : Text) :
    slotAt? (slotText name ++ rest) = some name := by
  obtain ⟨first, others, rfl, hfirst, hothers⟩ := hname
  have htake : (others ++ '}' :: rest).takeWhile isNameChar = others := by
    rw [List.takeWhile_append_of_pos hothers]
    simp [show isNameChar '}' = false by decide]
  have hdrop : (others ++ '}' :: rest).dropWhile isNameChar = '}' :: rest := by
    rw [List.dropWhile_append_of_pos hothers]
    simp [show isNameChar '}' = false by decide]
  simp [slotText, slotAt?, htake, hdrop, hfirst]

theorem exists_of_slotAt? {text name : Text} (h : slotAt? text = some name) :
    IsSlotName name ∧ ∃ rest, text = slotText name ++ rest := by
  unfold slotAt? at h
  split at h
  · rename_i c rest
    split at h
    · rename_i hcond
      obtain ⟨hstart, hclose⟩ : isNameStart c = true ∧
          (rest.dropWhile isNameChar).head? = some '}' := by simpa using hcond
      cases h
      obtain ⟨after, hafter⟩ : ∃ after, rest.dropWhile isNameChar = '}' :: after :=
        List.head?_eq_some_iff.mp hclose
      have hsplit : rest = rest.takeWhile isNameChar ++ '}' :: after := by
        rw [← hafter, List.takeWhile_append_dropWhile]
      refine ⟨⟨c, rest.takeWhile isNameChar, rfl, hstart, ?_⟩, after, ?_⟩
      · intro d hd
        exact List.all_eq_true.mp (List.all_takeWhile) d hd
      · conv_lhs => rw [hsplit]
        simp [slotText]
    · cases h
  · cases h

theorem slotAt?_eq_none_iff {text : Text} :
    slotAt? text = none ↔ ∀ name after, IsSlotName name → text ≠ slotText name ++ after := by
  constructor
  · rintro h name after hname rfl
    rw [slotAt?_slotText hname after] at h
    cases h
  · intro h
    cases hslot : slotAt? text with
    | none => rfl
    | some name =>
      obtain ⟨hname, after, htext⟩ := exists_of_slotAt? hslot
      exact absurd htext (h name after hname)

/-! ## The pieces of a template -/

/-- Covered characters are skipped. -/
theorem piecesFrom_eq_pieces_drop (covered : Nat) (text : Text) :
    piecesFrom covered text = pieces (text.drop covered) := by
  induction covered generalizing text with
  | zero => rfl
  | succ covered ih =>
    cases text with
    | nil => simp [piecesFrom, pieces]
    | cons c rest => rw [piecesFrom, ih, List.drop_succ_cons]

theorem pieces_slotText {name : Text} (hname : IsSlotName name) (rest : Text) :
    pieces (slotText name ++ rest) = .slot name :: pieces rest := by
  have hslot := slotAt?_slotText hname rest
  have hcons : slotText name ++ rest = '$' :: ('{' :: (name ++ ['}']) ++ rest) := rfl
  rw [hcons] at hslot ⊢
  rw [pieces, piecesFrom, hslot]
  simp only [piecesFrom_eq_pieces_drop, List.cons.injEq, true_and]
  congr 1
  simp [List.drop_append]

theorem pieces_literal {c : Char} {rest : Text}
    (hnone : ∀ name after, IsSlotName name → c :: rest ≠ slotText name ++ after) :
    pieces (c :: rest) = .literal c :: pieces rest := by
  rw [pieces, piecesFrom, slotAt?_eq_none_iff.mpr hnone]
  rfl

theorem Reads.eq_pieces {template : Text} {ps : List Piece} (h : Reads template ps) :
    ps = pieces template := by
  induction h with
  | done => rfl
  | slot hname _ ih => rw [pieces_slotText hname, ih]
  | literal hnone _ ih => rw [pieces_literal hnone, ih]

/-- Every template has a reading. The induction is on the length, since a slot covers several
characters. -/
theorem reads_pieces (template : Text) : Reads template (pieces template) := by
  generalize hlen : template.length = n
  induction n using Nat.strongRecOn generalizing template with
  | ind n ih =>
    cases template with
    | nil => exact .done
    | cons c rest =>
      cases hslot : slotAt? (c :: rest) with
      | none =>
        have hnone := slotAt?_eq_none_iff.mp hslot
        rw [pieces_literal hnone]
        exact .literal hnone (ih rest.length (by simp [← hlen]) rest rfl)
      | some name =>
        obtain ⟨hname, after, htext⟩ := exists_of_slotAt? hslot
        rw [htext, pieces_slotText hname]
        refine .slot hname (ih after.length ?_ after rfl)
        rw [← hlen, htext]
        simp [slotText]
        omega

theorem reads_iff_eq_pieces {template : Text} {ps : List Piece} :
    Reads template ps ↔ ps = pieces template :=
  ⟨Reads.eq_pieces, fun h => h ▸ reads_pieces template⟩

/-! ## Filling -/

theorem fill_eq_ok {template : Text} {bindings : Bindings}
    (h : ∀ name ∈ slotNames (pieces template), (bindings.get? name).isSome = true) :
    fill template bindings = .ok ((pieces template).flatMap (·.filled bindings)) := by
  have hnone : ((slotNames (pieces template)).filter fun name =>
      (bindings.get? name).isNone) = [] := by
    rw [List.filter_eq_nil_iff]
    intro name hname
    simpa using Option.isSome_iff_ne_none.mp (h name hname)
  simp only [fill, hnone, Text.sortedSet_eq_nil_iff.mpr, ne_eq, not_true_eq_false, if_false]

theorem exists_fill_eq_error {template name : Text} {bindings : Bindings}
    (hname : name ∈ slotNames (pieces template)) (hnone : bindings.get? name = none) :
    ∃ cause, fill template bindings = .error cause := by
  have hunknown : Text.sortedSet ((slotNames (pieces template)).filter fun name =>
      (bindings.get? name).isNone) ≠ [] := by
    rw [ne_eq, Text.sortedSet_eq_nil_iff]
    exact List.ne_nil_of_mem (List.mem_filter.mpr ⟨hname, by simp [hnone]⟩)
  exact ⟨_, by rw [fill, if_pos hunknown]⟩

theorem fill_eq_ok_iff {template text : Text} {bindings : Bindings} :
    fill template bindings = .ok text ↔
      (∀ name ∈ slotNames (pieces template), (bindings.get? name).isSome = true) ∧
        (pieces template).flatMap (·.filled bindings) = text := by
  constructor
  · intro h
    by_cases hall : ∀ name ∈ slotNames (pieces template), (bindings.get? name).isSome = true
    · rw [fill_eq_ok hall] at h
      exact ⟨hall, Except.ok.inj h⟩
    · simp only [not_forall, Option.not_isSome_iff_eq_none] at hall
      obtain ⟨name, hname, hnone⟩ := hall
      obtain ⟨cause, hcause⟩ := exists_fill_eq_error hname hnone
      rw [hcause] at h
      cases h
  · rintro ⟨hall, rfl⟩
    exact fill_eq_ok hall

end Folio.Directive
