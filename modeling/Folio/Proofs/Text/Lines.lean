import Folio.Text.Blank
import Folio.Text.Lines
import Mathlib.Data.List.TakeWhile

/-!
# Trimmed texts and single lines

A text is *trimmed* if it has no blank at either end; trimming leaves such a text alone. A text is a
*single line* if no character of it ends a line.

* `mem_of_mem_strip`: trimming only takes characters away.
* `strip_padded`, `exists_padded`: what it takes away are blanks around a trimmed text.
* `lines_of_singleLine`: a single line that is not empty is the only line of itself.
* `singleLine_of_mem_lines`: the lines of any text are single lines.
* `lines_unlines`: single lines that are put together and closed with a line feed are read back.
-/

namespace Folio.Text

/-! ## Joined texts -/

theorem join_cons_cons (separator first second : Text) (others : List Text) :
    join separator (first :: second :: others) =
      first ++ separator ++ join separator (second :: others) :=
  List.intercalate_cons_cons

@[simp] theorem join_singleton (separator text : Text) : join separator [text] = text :=
  List.intercalate_singleton

/-- What holds of every character of the separator and of the texts holds of every character of the
joined text. -/
theorem forall_mem_join {P : Char → Prop} {separator : Text} {texts : List Text}
    (hsep : ∀ c ∈ separator, P c) (h : ∀ text ∈ texts, ∀ c ∈ text, P c) :
    ∀ c ∈ join separator texts, P c := by
  induction texts with
  | nil => simp [join, List.intercalate]
  | cons first others ih =>
    have hothers := ih (fun text htext => h text (List.mem_cons_of_mem _ htext))
    cases others with
    | nil => simpa using h first List.mem_cons_self
    | cons second others =>
      intro c hc
      rw [join_cons_cons] at hc
      rcases List.mem_append.mp hc with hc | hc
      · rcases List.mem_append.mp hc with hc | hc
        · exact h first List.mem_cons_self c hc
        · exact hsep c hc
      · exact hothers c hc

/-! ## Trimmed texts -/

/-- There is no blank at either end. -/
def Trimmed (text : Text) : Prop :=
  (∀ c ∈ text.head?, isBlank c = false) ∧ ∀ c ∈ text.getLast?, isBlank c = false

-- The instances are given by name: characters are finitely many, and the search for an instance may
-- find the one that goes through all of them.
instance (text : Text) : Decidable (Trimmed text) :=
  @instDecidableAnd _ _ (Option.decidableForallMem text.head?)
    (Option.decidableForallMem text.getLast?)

theorem stripLeft_eq_self {text : Text} (h : ∀ c ∈ text.head?, isBlank c = false) :
    stripLeft text = text := by
  cases text with
  | nil => rfl
  | cons c rest =>
    have hc : isBlank c = false := h c rfl
    simp [stripLeft, hc]

theorem stripRight_eq_self {text : Text} (h : ∀ c ∈ text.getLast?, isBlank c = false) :
    stripRight text = text := by
  have hrev : stripLeft text.reverse = text.reverse := stripLeft_eq_self (by simpa using h)
  simp only [stripLeft] at hrev
  simp only [stripRight, hrev, List.reverse_reverse]

theorem Trimmed.strip_eq {text : Text} (h : Trimmed text) : strip text = text := by
  rw [strip, stripLeft_eq_self h.1, stripRight_eq_self h.2]

theorem mem_of_mem_stripLeft {c : Char} {text : Text} (h : c ∈ stripLeft text) : c ∈ text :=
  (List.dropWhile_sublist _).mem h

theorem mem_of_mem_stripRight {c : Char} {text : Text} (h : c ∈ stripRight text) : c ∈ text := by
  have hrev : c ∈ text.reverse.dropWhile isBlank := List.mem_reverse.mp h
  exact List.mem_reverse.mp ((List.dropWhile_sublist _).mem hrev)

theorem mem_of_mem_strip {c : Char} {text : Text} (h : c ∈ strip text) : c ∈ text :=
  mem_of_mem_stripLeft (mem_of_mem_stripRight h)

theorem stripLeft_append {padding : Text} (h : ∀ c ∈ padding, isBlank c = true) (text : Text) :
    stripLeft (padding ++ text) = stripLeft text :=
  List.dropWhile_append_of_pos h

theorem stripRight_append {padding : Text} (h : ∀ c ∈ padding, isBlank c = true) (text : Text) :
    stripRight (text ++ padding) = stripRight text := by
  have hreverse : ∀ c ∈ padding.reverse, isBlank c = true := by simpa using h
  unfold stripRight
  rw [List.reverse_append, List.dropWhile_append_of_pos hreverse]

/-- Padding around a trimmed text is what trimming takes away. -/
theorem strip_padded {left text right : Text} (hleft : ∀ c ∈ left, isBlank c = true)
    (htext : Trimmed text) (hright : ∀ c ∈ right, isBlank c = true) :
    strip (left ++ (text ++ right)) = text := by
  unfold strip
  rw [stripLeft_append hleft]
  by_cases hnil : text = []
  · have hblank : stripLeft right = [] := List.dropWhile_eq_nil_iff.mpr hright
    rw [hnil, List.nil_append, hblank]
    rfl
  · obtain ⟨c, rest, rfl⟩ := List.exists_cons_of_ne_nil hnil
    have hself : stripLeft (c :: rest ++ right) = c :: rest ++ right :=
      stripLeft_eq_self fun d hd => htext.1 d hd
    rw [hself, stripRight_append hright, stripRight_eq_self htext.2]

theorem exists_stripLeft (text : Text) :
    ∃ left, text = left ++ stripLeft text ∧ (∀ c ∈ left, isBlank c = true) ∧
      ∀ c ∈ (stripLeft text).head?, isBlank c = false := by
  refine ⟨text.takeWhile isBlank, List.takeWhile_append_dropWhile.symm, ?_, ?_⟩
  · exact fun c hc => List.mem_takeWhile_imp hc
  · intro c hc
    have hhead := List.head?_dropWhile_not isBlank text
    unfold stripLeft at hc
    rw [hc] at hhead
    simpa using hhead

/-- Every text is its trimmed text with padding around it. -/
theorem exists_padded (text : Text) :
    ∃ left right, text = left ++ (strip text ++ right) ∧ (∀ c ∈ left, isBlank c = true) ∧
      (∀ c ∈ right, isBlank c = true) ∧ Trimmed (strip text) := by
  obtain ⟨left, hleft, hleftBlank, hhead⟩ := exists_stripLeft text
  obtain ⟨right, hright, hrightBlank, hlast⟩ := exists_stripLeft (stripLeft text).reverse
  have hstrip : strip text = (stripLeft (stripLeft text).reverse).reverse := rfl
  have hsplit : stripLeft text = strip text ++ right.reverse := by
    rw [hstrip, ← List.reverse_append, ← hright, List.reverse_reverse]
  refine ⟨left, right.reverse, ?_, hleftBlank, ?_, ?_, ?_⟩
  · rw [← hsplit]
    exact hleft
  · simpa using hrightBlank
  · intro c hc
    refine hhead c ?_
    rw [hsplit, List.head?_append, Option.mem_def.mp hc]
    rfl
  · intro c hc
    refine hlast c ?_
    rw [hstrip] at hc
    simpa using hc

theorem strip_eq_nil_iff {text : Text} : strip text = [] ↔ ∀ c ∈ text, isBlank c = true := by
  constructor
  · intro hnil
    obtain ⟨left, right, hsplit, hleft, hright, -⟩ := exists_padded text
    rw [hsplit, hnil, List.nil_append]
    exact List.forall_mem_append.mpr ⟨hleft, hright⟩
  · intro hblank
    have hright : ∀ c ∈ ([] : Text), isBlank c = true := fun _ h => absurd h List.not_mem_nil
    simpa using strip_padded hblank (by decide : Trimmed []) hright

theorem trimmed_strip (text : Text) : Trimmed (strip text) := by
  obtain ⟨_, _, -, -, -, htrimmed⟩ := exists_padded text
  exact htrimmed

/-! ## Single lines -/

/-- No character of the text ends a line. -/
def SingleLine (text : Text) : Prop := ∀ c ∈ text, isLineBreak c = false

instance (text : Text) : Decidable (SingleLine text) := List.decidableBAll _ text

theorem SingleLine.nil : SingleLine [] := by
  intro c hc
  cases hc

theorem singleLine_cons {c : Char} {text : Text} :
    SingleLine (c :: text) ↔ isLineBreak c = false ∧ SingleLine text := by
  simp [SingleLine]

theorem singleLine_append {text other : Text} :
    SingleLine (text ++ other) ↔ SingleLine text ∧ SingleLine other := by
  simp only [SingleLine, List.mem_append, or_imp, forall_and]

theorem SingleLine.append {text other : Text} (h : SingleLine text) (hother : SingleLine other) :
    SingleLine (text ++ other) :=
  singleLine_append.mpr ⟨h, hother⟩

theorem SingleLine.strip {text : Text} (h : SingleLine text) : SingleLine text.strip :=
  fun c hc => h c (mem_of_mem_strip hc)

/-- Only line feeds end lines of the text. -/
def LineFeedsOnly (text : Text) : Prop := ∀ c ∈ text, isLineBreak c = true → c = '\n'

instance (text : Text) : Decidable (LineFeedsOnly text) := List.decidableBAll _ text

/-- Fixed words are checked character by character, without decoding the literal. -/
theorem singleLine_literal {words : List Char} (h : SingleLine words) :
    SingleLine (String.ofList words).toList := by
  rwa [String.toList_ofList]

/-- A carriage return ends a line, so a character that does not is none. -/
theorem ne_carriageReturn {c : Char} (h : isLineBreak c = false) : c ≠ '\r' := by
  rintro rfl
  exact absurd h (by decide)

/-- The second clause of `lines` needs a carriage return, so it is not met here. -/
theorem lines_cons_of_not_break {c : Char} {rest : Text} (h : isLineBreak c = false) :
    lines (c :: rest) = consLine c (lines rest) := by
  have hc := ne_carriageReturn h
  rw [lines]
  · simp [h]
  · rintro rest' rfl _
    exact hc rfl

theorem lines_of_singleLine {text : Text} (h : SingleLine text) (hne : text ≠ []) :
    lines text = [text] := by
  induction text with
  | nil => exact absurd rfl hne
  | cons c rest ih =>
    obtain ⟨hc, hrest⟩ := singleLine_cons.mp h
    rw [lines_cons_of_not_break hc]
    by_cases hempty : rest = []
    · subst hempty
      rfl
    · rw [ih hrest hempty]
      rfl

theorem singleLine_of_mem_consLine {c : Char} {ls : List Text} (hc : isLineBreak c = false)
    (hls : ∀ line ∈ ls, SingleLine line) : ∀ line ∈ consLine c ls, SingleLine line := by
  intro line hline
  cases ls with
  | nil =>
    obtain rfl : line = [c] := by simpa [consLine] using hline
    exact singleLine_cons.mpr ⟨hc, SingleLine.nil⟩
  | cons first others =>
    rcases List.mem_cons.mp hline with rfl | hline
    · exact singleLine_cons.mpr ⟨hc, hls first List.mem_cons_self⟩
    · exact hls line (List.mem_cons_of_mem _ hline)

theorem singleLine_of_mem_lines {text : Text} : ∀ line ∈ lines text, SingleLine line := by
  fun_induction lines text with
  | case1 => simp
  | case2 rest ih => simpa [SingleLine.nil] using ih
  | case3 c rest hnot hc ih => simpa [SingleLine.nil] using ih
  | case4 c rest hnot hc ih => exact singleLine_of_mem_consLine (by simpa using hc) ih

/-- A line feed behind a single line closes it. -/
theorem lines_append_lineFeed {line rest : Text} (h : SingleLine line) :
    lines (line ++ '\n' :: rest) = line :: lines rest := by
  induction line with
  | nil =>
    rw [List.nil_append, lines]
    · simp [isLineBreak]
    · rintro _ hcr _
      exact absurd hcr (by decide)
  | cons c line ih =>
    obtain ⟨hc, hline⟩ := singleLine_cons.mp h
    rw [List.cons_append, lines_cons_of_not_break hc, ih hline]
    rfl

theorem unlines_cons_cons (first second : Text) (others : List Text) :
    unlines (first :: second :: others) = first ++ '\n' :: unlines (second :: others) := by
  rw [unlines, join_cons_cons, List.append_assoc]
  rfl

/-- Single lines that are put together, with an empty last one, are read back without that one: it
only closes the line before it. -/
theorem lines_unlines {ls : List Text} (h : ∀ line ∈ ls, SingleLine line) :
    lines (unlines (ls ++ [[]])) = ls := by
  induction ls with
  | nil => rfl
  | cons line rest ih =>
    have hrest := ih (fun other hother => h other (List.mem_cons_of_mem _ hother))
    obtain ⟨second, others, hsplit⟩ : ∃ second others, rest ++ [[]] = second :: others :=
      List.exists_cons_of_ne_nil (by simp)
    rw [List.cons_append, hsplit, unlines_cons_cons, lines_append_lineFeed (h line (by simp)),
      ← hsplit, hrest]

/-- Single lines that are put together are read back if the last one is not empty. -/
theorem lines_unlines_concat {ls : List Text} {last : Text}
    (h : ∀ line ∈ ls ++ [last], SingleLine line) (hlast : last ≠ []) :
    lines (unlines (ls ++ [last])) = ls ++ [last] := by
  induction ls with
  | nil =>
    have hsingle : SingleLine last := h last List.mem_cons_self
    rw [List.nil_append, unlines, join_singleton, lines_of_singleLine hsingle hlast]
  | cons line rest ih =>
    obtain ⟨hline, hrest⟩ := List.forall_mem_cons.mp h
    obtain ⟨second, others, hsplit⟩ : ∃ second others, rest ++ [last] = second :: others :=
      List.exists_cons_of_ne_nil (by simp)
    rw [List.cons_append, hsplit, unlines_cons_cons, lines_append_lineFeed hline, ← hsplit,
      ih hrest]

/-! ## Normalising -/

theorem normalizeBreaks_of_not_mem {text : Text} (h : '\r' ∉ text) :
    normalizeBreaks text = text := by
  induction text with
  | nil => rfl
  | cons c rest ih =>
    rw [List.mem_cons, not_or] at h
    have hc : c ≠ '\r' := Ne.symm h.1
    rw [normalizeBreaks, if_neg hc, ih h.2]
    exact fun tail hreturn _ => absurd hreturn hc

/-- Lines joined again hold no carriage return. -/
theorem not_mem_unlines {ls : List Text} (h : ∀ line ∈ ls, SingleLine line) :
    '\r' ∉ unlines ls := by
  have hall : ∀ c ∈ unlines ls, c ≠ '\r' :=
    forall_mem_join (List.forall_mem_singleton.mpr (by decide)) fun line hline c hc =>
      ne_carriageReturn (h line hline c hc)
  exact fun hmem => hall '\r' hmem rfl

end Folio.Text
