import Folio.Proofs.Directive.ResolvedValues
import Folio.Proofs.Directive.Template
import Folio.Proofs.Text.Marks

/-!
# Filling templates

A slot begins with the only dollar sign in it, so slots are separate marks (`separate_slot`) and a
template is cut at its slots in one way only. The pieces that a template is read into are those of
the cut (`pieces_of_isOf`): a slot is found wherever its text stands in the template, and near
misses such as an unclosed brace are left alone.

The main result is `fills_at_once`: filling puts the values between the stretches of the cut, so it
does not matter what the values hold or what they form together with the text around them.
-/

namespace Folio.Directive

open Text

/-- A name that a slot can have. -/
@[ext] structure SlotName where
  name : Text
  isName : IsSlotName name
  deriving DecidableEq

/-- The slot with a name. -/
def SlotName.slot (slot : SlotName) : Text := slotText slot.name

/-- A slot with the name stands somewhere in the template. -/
def HasSlot (template name : Text) : Prop := IsSlotName name ∧ slotText name <:+: template

/-! ## Slots are separate -/

theorem dollar_not_mem {name : Text} (h : IsSlotName name) : '$' ∉ '{' :: (name ++ ['}']) := by
  obtain ⟨first, rest, rfl, hfirst, hrest⟩ := h
  have hstart : first ≠ '$' := by
    rintro rfl
    exact absurd hfirst (by decide)
  have hothers : '$' ∉ rest := fun hmem => absurd (hrest '$' hmem) (by decide)
  simp [Ne.symm hstart, hothers]

/-- Behind the first character of a slot there is no dollar sign, and every slot begins with one. -/
theorem separate_slot : Separate SlotName.slot where
  ne_nil := by
    intro i
    exact List.cons_ne_nil _ _
  eq_of_begins := by
    rintro i j ⟨after, hafter⟩
    have hi := slotAt?_slotText i.isName after
    have hj := slotAt?_slotText j.isName []
    rw [List.append_nil] at hj
    unfold SlotName.slot at hafter
    rw [hafter, hj] at hi
    exact SlotName.ext (Option.some.inj hi).symm
  apart := by
    intro i j front back hsplit hfront hback
    obtain ⟨d, front, rfl⟩ := List.exists_cons_of_ne_nil hfront
    obtain ⟨c, back, rfl⟩ := List.exists_cons_of_ne_nil hback
    obtain ⟨-, htail⟩ : '$' = d ∧ '{' :: (i.name ++ ['}']) = front ++ c :: back :=
      List.cons.inj hsplit
    have hc : c ≠ '$' := by
      rintro rfl
      exact dollar_not_mem i.isName (htail ▸ List.mem_append_right _ List.mem_cons_self)
    constructor
    · intro hbegins
      exact hc (List.cons_prefix_cons.mp hbegins).1
    · intro hbegins
      exact hc (List.cons_prefix_cons.mp hbegins).1.symm

/-! ## The pieces of a cut -/

/-- The pieces that a template is read into, put together from its cut. -/
def piecesOf : Cut SlotName → List Piece
  | .last stretch => stretch.map .literal
  | .next stretch slot rest => stretch.map .literal ++ .slot slot.name :: piecesOf rest

/-- A stretch in which no slot begins is read character by character. -/
theorem pieces_stretch {stretch rest : Text}
    (h : ∀ back, back <:+ stretch → back ≠ [] → ∀ slot : SlotName, ¬ slot.slot <+: back ++ rest) :
    pieces (stretch ++ rest) = stretch.map .literal ++ pieces rest := by
  induction stretch with
  | nil => rfl
  | cons c stretch ih =>
    have hnone : ∀ name after, IsSlotName name →
        c :: (stretch ++ rest) ≠ slotText name ++ after := by
      intro name after hname heq
      exact h _ (List.suffix_refl _) (List.cons_ne_nil _ _) ⟨name, hname⟩ ⟨after, heq.symm⟩
    rw [List.cons_append, pieces_literal hnone, List.map_cons, List.cons_append,
      ih fun back hback => h back (hback.trans (List.suffix_cons _ _))]

theorem pieces_of_isOf {template : Text} {cut : Cut SlotName}
    (h : cut.IsOf SlotName.slot template) :
    pieces template = piecesOf cut := by
  obtain ⟨rfl, hfree⟩ := h
  induction cut with
  | last stretch =>
    have hstretch := List.forall_mem_singleton.mp hfree
    have hpieces : pieces (stretch ++ []) = stretch.map .literal ++ pieces [] := by
      refine pieces_stretch fun back hback _ slot hbegins => ?_
      rw [List.append_nil] at hbegins
      exact hstretch slot (hbegins.isInfix.trans hback.isInfix)
    rw [List.append_nil] at hpieces
    exact hpieces.trans (List.append_nil _)
  | next stretch i rest ih =>
    obtain ⟨hstretch, hrest⟩ := List.forall_mem_cons.mp hfree
    rw [Cut.filled, pieces_stretch, piecesOf, ← ih hrest]
    · exact congrArg _ (pieces_slotText i.isName _)
    · intro back hback hne slot hbegins
      rcases separate_slot.prefix_append hbegins with hwithin | ⟨hnil, -⟩
      · exact hstretch slot (hwithin.isInfix.trans hback.isInfix)
      · exact hne hnil

theorem slotNames_map_literal (stretch : Text) (ps : List Piece) :
    slotNames (stretch.map .literal ++ ps) = slotNames ps := by
  induction stretch with
  | nil => rfl
  | cons c stretch ih => exact ih

theorem slotNames_piecesOf (cut : Cut SlotName) :
    slotNames (piecesOf cut) = cut.marks.map (·.name) := by
  induction cut with
  | last stretch =>
    have hnone := slotNames_map_literal stretch []
    rw [List.append_nil] at hnone
    exact hnone
  | next stretch i rest ih =>
    rw [piecesOf, slotNames_map_literal, Cut.marks, List.map_cons, ← ih]
    rfl

theorem flatMap_filled_literal (bindings : Bindings) (stretch : Text) :
    (stretch.map Piece.literal).flatMap (·.filled bindings) = stretch := by
  induction stretch with
  | nil => rfl
  | cons c stretch ih => exact congrArg (c :: ·) ih

theorem flatMap_filled_piecesOf {bindings : Bindings} {value : SlotName → Text} {cut : Cut SlotName}
    (hvalue : ∀ slot ∈ cut.marks, bindings.get? slot.name = some (value slot)) :
    (piecesOf cut).flatMap (·.filled bindings) = cut.filled value := by
  induction cut with
  | last stretch => exact flatMap_filled_literal bindings stretch
  | next stretch i rest ih =>
    obtain ⟨hi, hrest⟩ := List.forall_mem_cons.mp hvalue
    have hslot : (Piece.slot i.name).filled bindings = value i := by
      rw [Piece.filled, hi]
      rfl
    rw [piecesOf, List.flatMap_append, flatMap_filled_literal, List.flatMap_cons, hslot, ih hrest,
      Cut.filled]

/-- A slot is found exactly if it stands somewhere in the template. -/
theorem mem_slotNames_iff {template name : Text} :
    name ∈ slotNames (pieces template) ↔ HasSlot template name := by
  obtain ⟨cut, hcut⟩ := exists_isOf separate_slot.ne_nil template
  rw [pieces_of_isOf hcut, slotNames_piecesOf, List.mem_map]
  constructor
  · rintro ⟨slot, hslot, rfl⟩
    exact ⟨slot.isName, (separate_slot.mem_marks_iff hcut).mp hslot⟩
  · rintro ⟨hname, hstands⟩
    exact ⟨⟨name, hname⟩, (separate_slot.mem_marks_iff hcut).mpr hstands, rfl⟩

/-! ## Filling -/

/-- The names of slots of a template that are not known, in order and each once. -/
def unknownSlots (template : Text) (known : List Text) : List Text :=
  Text.sortedSet ((slotNames (pieces template)).filter (· ∉ known))

theorem mem_unknownSlots_iff {template name : Text} {known : List Text} :
    name ∈ unknownSlots template known ↔ HasSlot template name ∧ name ∉ known := by
  rw [unknownSlots, Text.mem_sortedSet, List.mem_filter, mem_slotNames_iff, decide_eq_true_iff]

/-- Whether a template can be filled depends only on the names that have a value. -/
theorem fill_eq_of_names (template : Text) {bindings : Bindings} {known : List Text}
    (h : ∀ name, name ∈ bindings.names ↔ name ∈ known) :
    fill template bindings =
      if unknownSlots template known ≠ [] then .error (.unknownSlots (unknownSlots template known))
      else .ok ((pieces template).flatMap (·.filled bindings)) := by
  have hunknown : ((slotNames (pieces template)).filter fun name => (bindings.get? name).isNone) =
      (slotNames (pieces template)).filter (· ∉ known) := by
    refine List.filter_congr fun name _ => ?_
    rw [Bool.eq_iff_iff, decide_eq_true_iff, ← h name, mem_names_iff, Option.isNone_iff_eq_none,
      Option.not_isSome_iff_eq_none]
  unfold fill unknownSlots
  dsimp only
  rw [hunknown]

section Filling

variable {template : Text} {cut : Cut SlotName}

theorem hasSlot_iff_mem_marks (hcut : cut.IsOf SlotName.slot template) (name : Text) :
    HasSlot template name ↔ name ∈ cut.marks.map (·.name) := by
  rw [← mem_slotNames_iff, pieces_of_isOf hcut, slotNames_piecesOf]

theorem unknownSlots_eq_nil_iff (hcut : cut.IsOf SlotName.slot template) (known : List Text) :
    unknownSlots template known = [] ↔ ∀ slot ∈ cut.marks, slot.name ∈ known := by
  simp only [List.eq_nil_iff_forall_not_mem, mem_unknownSlots_iff,
    hasSlot_iff_mem_marks hcut, not_and, not_not, List.forall_mem_map]

theorem exists_fill_iff (template : Text) (bindings : Bindings) :
    (∃ text, fill template bindings = .ok text) ↔ unknownSlots template bindings.names = [] := by
  rw [fill_eq_of_names template fun _ => Iff.rfl]
  split
  · rename_i hsome
    constructor
    · rintro ⟨_, ⟨⟩⟩
    · exact fun hnone => absurd hnone hsome
  · rename_i hnone
    exact ⟨fun _ => not_not.mp hnone, fun _ => ⟨_, rfl⟩⟩

theorem fill_eq_filled (hcut : cut.IsOf SlotName.slot template) {bindings : Bindings}
    {value : SlotName → Text}
    (hvalue : ∀ slot ∈ cut.marks, bindings.get? slot.name = some (value slot)) :
    fill template bindings = .ok (cut.filled value) := by
  have hnone : unknownSlots template bindings.names = [] := by
    refine (unknownSlots_eq_nil_iff hcut _).mpr fun slot hslot => ?_
    rw [mem_names_iff, hvalue slot hslot]
    rfl
  rw [fill_eq_of_names template fun _ => Iff.rfl, if_neg (not_not.mpr hnone), pieces_of_isOf hcut,
    flatMap_filled_piecesOf hvalue]

end Filling

theorem fill_of_noSlot {template : Text} (h : ∀ name, ¬ HasSlot template name)
    (bindings : Bindings) :
    fill template bindings = .ok template := by
  obtain ⟨cut, hcut⟩ := exists_isOf separate_slot.ne_nil template
  have hnone : ∀ slot ∈ cut.marks, bindings.get? slot.name = some slot.slot := by
    intro slot hslot
    exact absurd ((hasSlot_iff_mem_marks hcut slot.name).mpr (List.mem_map_of_mem hslot))
      (h slot.name)
  rw [fill_eq_filled hcut hnone, hcut.filled]

/-- What filling does to a template that is cut at its slots. -/
structure FillsAtOnce (template : Text) (cut : Cut SlotName) : Prop where
  isOf : cut.IsOf SlotName.slot template
  unique : ∀ other : Cut SlotName, other.IsOf SlotName.slot template → other = cut
  succeeds : ∀ bindings : Bindings, (∃ text, fill template bindings = .ok text) ↔
    ∀ slot ∈ cut.marks, slot.name ∈ bindings.names
  /-- The stretches stay, and each slot becomes its value. -/
  filled : ∀ (bindings : Bindings) (value : SlotName → Text),
    (∀ slot ∈ cut.marks, bindings.get? slot.name = some (value slot)) →
      fill template bindings = .ok (cut.filled value)
  /-- All slots without a value are listed in order, each once. -/
  missing : ∀ bindings : Bindings, ¬ (∀ slot ∈ cut.marks, slot.name ∈ bindings.names) →
    ∃ missing, fill template bindings = .error (.unknownSlots missing) ∧
      missing.Pairwise (· < ·) ∧
      ∀ name, name ∈ missing ↔ name ∈ cut.marks.map (·.name) ∧ name ∉ bindings.names
  /-- Slots that stand for themselves change nothing. -/
  unchanged : ∀ bindings : Bindings,
    (∀ slot ∈ cut.marks, bindings.get? slot.name = some slot.slot) →
      fill template bindings = .ok template

/-- **All slots of a template are filled at once.** Every template is cut at its slots in one way;
it can be filled exactly if every slot has a value, and the values are not read again. -/
theorem fills_at_once (template : Text) : ∃ cut, FillsAtOnce template cut := by
  obtain ⟨cut, hcut⟩ := exists_isOf separate_slot.ne_nil template
  refine ⟨cut, hcut, fun other hother => hother.unique separate_slot hcut, ?_, ?_, ?_, ?_⟩
  · intro bindings
    rw [exists_fill_iff, unknownSlots_eq_nil_iff hcut]
  · intro bindings value hvalue
    exact fill_eq_filled hcut hvalue
  · intro bindings hmissing
    have hunknown := mt (unknownSlots_eq_nil_iff hcut bindings.names).mp hmissing
    refine ⟨unknownSlots template bindings.names, ?_, Text.pairwise_sortedSet _, fun name => ?_⟩
    · rw [fill_eq_of_names template fun _ => Iff.rfl, if_pos hunknown]
    · rw [mem_unknownSlots_iff, hasSlot_iff_mem_marks hcut]
  · intro bindings hvalue
    rw [fill_eq_filled hcut hvalue, hcut.filled]

-- Near misses are no slots, and a slot that the values form with the text between them is not
-- filled.
example :
    fill "$$\x7ba\x7d$\x7ba$\x7bb\x7d$\x7b1a\x7d" [("a", "$\x7bb"), ("b", "\x7d")] =
      .ok "$$\x7bb$\x7ba\x7d$\x7b1a\x7d" := by decide

end Folio.Directive
