import Folio.Page.Sections
import Folio.Proofs.Directive.Messages
import Folio.Proofs.Text.FirstLine

/-!
# The lines of sections

The sections are put together from the lines of a text, so whatever the text was, no carriage return
is left in them (`not_mem_addSections`), and their lines are those of the text with some lines for
each page between them (`lines_addSections`, `sectionLines_append`).
-/

namespace Folio.Page

open Text

theorem singleLine_sectionOpening (number : Nat) : SingleLine (sectionOpening number) :=
  ((singleLine_literal (by decide)).append (singleLine_ofNat number)).append
    (singleLine_literal (by decide))

theorem singleLine_of_mem_sectionLines {number : Nat} {ls : List Text}
    (h : ∀ line ∈ ls, SingleLine line) : ∀ line ∈ sectionLines number ls, SingleLine line := by
  have hclosing : SingleLine ("</section>" : Text) := singleLine_literal (by decide)
  induction ls generalizing number with
  | nil =>
    intro line hline
    rcases List.mem_pair.mp hline with rfl | rfl
    · exact SingleLine.nil
    · exact hclosing
  | cons first rest ih =>
    have hrest : ∀ number, ∀ line ∈ sectionLines number rest, SingleLine line := fun number =>
      ih fun line hline => h line (List.mem_cons_of_mem _ hline)
    rw [sectionLines]
    split
    · intro line hline
      simp only [List.mem_cons] at hline
      rcases hline with rfl | rfl | rfl | rfl | rfl | hline
      · exact SingleLine.nil
      · exact hclosing
      · exact SingleLine.nil
      · exact singleLine_sectionOpening _
      · exact SingleLine.nil
      · exact hrest _ line hline
    · intro line hline
      rcases List.mem_cons.mp hline with rfl | hline
      · exact h line List.mem_cons_self
      · exact hrest _ line hline

/-- The lines of the sections of a text. -/
theorem singleLine_sections (text : Text) :
    ∀ line ∈ sectionOpening 1 :: "" :: sectionLines 1 text.lines, SingleLine line := by
  intro line hline
  rcases List.mem_cons.mp hline with rfl | hline
  · exact singleLine_sectionOpening 1
  · rcases List.mem_cons.mp hline with rfl | hline
    · exact SingleLine.nil
    · exact singleLine_of_mem_sectionLines (fun line => singleLine_of_mem_lines line) line hline

theorem not_mem_addSections (text : Text) : '\r' ∉ addSections text := by
  unfold addSections
  rw [List.mem_append, not_or]
  exact ⟨not_mem_unlines (singleLine_sections text), by decide⟩

theorem lines_addSections (text : Text) :
    (addSections text).lines = sectionOpening 1 :: "" :: sectionLines 1 text.lines :=
  lines_unlines_lineFeed (List.cons_ne_nil _ _) (singleLine_sections text)

/-! ## Lines within pages -/

theorem isPageBreak_congr {line other : Text} (h : stripRight line = stripRight other) :
    isPageBreak line = isPageBreak other := by
  unfold isPageBreak
  rw [strip_congr h]

/-- The lines of the sections up to a place: a page that has been ended is closed and the next one
opened. -/
def pagedLines (number : Nat) : List Text → List Text
  | [] => []
  | line :: rest =>
    if isPageBreak line then
      "" :: "</section>" :: "" :: sectionOpening (number + 1) :: "" :: pagedLines (number + 1) rest
    else line :: pagedLines number rest

/-- What follows a place does not matter for what stands before it. -/
theorem sectionLines_append (number : Nat) (front rest : List Text) :
    sectionLines number (front ++ rest) =
      pagedLines number front ++ sectionLines (number + front.countP isPageBreak) rest := by
  induction front generalizing number with
  | nil => rfl
  | cons line front ih =>
    rw [List.cons_append, sectionLines, pagedLines, List.countP_cons]
    split
    · rw [ih, Nat.add_right_comm, ← Nat.add_assoc]
      rfl
    · rw [ih, Nat.add_zero]
      rfl

/-- Blanks at the ends of lines do not matter for the number of lines that are written, and more
lines give more. -/
theorem length_pagedLines_le {ls others : List Text}
    (h : ls.map stripRight <+: others.map stripRight) (number number' : Nat) :
    (pagedLines number ls).length ≤ (pagedLines number' others).length := by
  induction ls generalizing others number number' with
  | nil => exact Nat.zero_le _
  | cons line rest ih =>
    cases others with
    | nil =>
      have hlength := h.length_le
      simp at hlength
    | cons other others =>
      rw [List.map_cons, List.map_cons, List.cons_prefix_cons] at h
      rw [pagedLines, pagedLines, isPageBreak_congr h.1]
      split
      · have hrest := ih h.2 (number + 1) (number' + 1)
        simp only [List.length_cons]
        omega
      · have hrest := ih h.2 number number'
        simp only [List.length_cons]
        omega

end Folio.Page
