import Folio.Build.Enhance
import Folio.Proofs.Directive.Declared

/-!
# The error modes

Expanding a text can stop at the first failure, report failures and go on, or also put a note before
each line that failed. The three runs are tied together line by line: what a line contributes, and
whether it fails, depends on that line and its number alone (`contribution`, `failure?`).

The lines that are reported show the place of a failure once (`line_errorReport`), and a note has
four lines (`lines_embeddedNote`).
-/

namespace Folio.Directive

open Text

/-! ## Line by line -/

/-- A line and its number, examined. -/
def examineLine (definitions : List Definition) (source : Option Text) (line : Text)
    (number : Nat) : ExaminedLine :=
  ⟨placeOf source number, line, lineOutcome definitions line⟩

/-- What a line contributes to the text. -/
def contribution (definitions : List Definition) (source : Option Text) (mode : ErrorMode)
    (line : Text) (number : Nat) : List Text :=
  (examineLine definitions source line number).output mode

/-- The failure of a line, if it fails. -/
def failure? (definitions : List Definition) (source : Option Text) (line : Text) (number : Nat) :
    Option PlacedError :=
  (examineLine definitions source line number).error?

/-- Does the line fail? -/
def fails (definitions : List Definition) (line : Text) : Bool :=
  match lineOutcome definitions line with
  | .failed _ => true
  | _ => false

/-- What the lines contribute, put together; a line feed at the end stays. -/
def assemble (definitions : List Definition) (source : Option Text) (mode : ErrorMode)
    (text : Text) : Text :=
  Text.unlines ((text.lines.zipIdx 1).flatMap fun (line, number) =>
    contribution definitions source mode line number) ++
    (if text.getLast? = some '\n' then ['\n'] else [])

/-- The failures of the lines, in order. -/
def failures (definitions : List Definition) (source : Option Text) (text : Text) :
    List PlacedError :=
  (text.lines.zipIdx 1).filterMap fun (line, number) => failure? definitions source line number

section Modes

variable (definitions : List Definition) (source : Option Text)

theorem filterMap_error?_examine (text : Text) :
    (examine definitions source text).filterMap (·.error?) = failures definitions source text := by
  rw [examine, List.filterMap_map]
  rfl

theorem flatMap_output_examine (mode : ErrorMode) (text : Text) :
    (examine definitions source text).flatMap (·.output mode) =
      (text.lines.zipIdx 1).flatMap fun (line, number) =>
        contribution definitions source mode line number := by
  rw [examine, List.flatMap_map]
  rfl

theorem expand_report (embed : Bool) (text : Text) :
    expand definitions source (.report embed) text =
      .ok ⟨assemble definitions source (.report embed) text, failures definitions source text⟩ := by
  unfold expand
  dsimp only
  rw [filterMap_error?_examine, flatMap_output_examine]
  rfl

/-- A strict run stops at the first failure; without one, it does what a run that goes on does. -/
theorem expand_strict (text : Text) :
    expand definitions source .strict text =
      match failures definitions source text with
      | [] => .ok ⟨assemble definitions source .strict text, []⟩
      | first :: _ => .error first := by
  unfold expand
  dsimp only
  rw [filterMap_error?_examine, flatMap_output_examine]
  cases failures definitions source text with
  | nil => rfl
  | cons first rest => rfl

theorem contribution_eq (mode : ErrorMode) (line : Text) (number : Nat) :
    contribution definitions source mode line number =
      match lineOutcome definitions line with
      | .kept => [line]
      | .replaced ls => ls
      | .failed cause =>
        match mode with
        | .report true => (embeddedNote (placeOf source number)
            (PlacedError.message ⟨placeOf source number, cause⟩)).lines ++ [line]
        | _ => [line] := rfl

theorem failure?_eq (line : Text) (number : Nat) :
    failure? definitions source line number =
      match lineOutcome definitions line with
      | .failed cause => some ⟨placeOf source number, cause⟩
      | _ => none := rfl

theorem fails_eq_true_iff {line : Text} : fails definitions line = true ↔
    ∃ cause, lineOutcome definitions line = .failed cause := by
  unfold fails
  cases lineOutcome definitions line with
  | kept => simp
  | replaced ls => simp
  | failed cause => simp

theorem failure?_eq_none_iff (line : Text) (number : Nat) :
    failure? definitions source line number = none ↔ fails definitions line = false := by
  rw [failure?_eq, fails]
  cases lineOutcome definitions line <;> simp

/-- A line that does not fail contributes the same in every mode. -/
theorem contribution_eq_of_not_fails {line : Text} (h : fails definitions line = false)
    (mode mode' : ErrorMode) (number : Nat) :
    contribution definitions source mode line number =
      contribution definitions source mode' line number := by
  rw [fails] at h
  rw [contribution_eq, contribution_eq]
  cases houtcome : lineOutcome definitions line with
  | failed cause =>
    rw [houtcome] at h
    cases h
  | kept => rfl
  | replaced ls => rfl

/-- Where no line fails, strict and continuing runs assemble the same text. -/
theorem assemble_eq_of_failures_eq_nil {text : Text} (h : failures definitions source text = [])
    (mode mode' : ErrorMode) :
    assemble definitions source mode text = assemble definitions source mode' text := by
  rw [failures, List.filterMap_eq_nil_iff] at h
  have hsame : ∀ numbered ∈ text.lines.zipIdx 1,
      contribution definitions source mode numbered.1 numbered.2 =
        contribution definitions source mode' numbered.1 numbered.2 := by
    intro numbered hmem
    have hnone := (failure?_eq_none_iff definitions source _ _).mp (h numbered hmem)
    exact contribution_eq_of_not_fails definitions source hnone mode mode' numbered.2
  unfold assemble
  rw [List.flatMap_congr hsame]

theorem eq_of_expand {text : Text} {mode : ErrorMode} {expansion : Expansion}
    (h : expand definitions source mode text = .ok expansion) :
    expansion = ⟨assemble definitions source mode text, failures definitions source text⟩ := by
  cases mode with
  | strict =>
    rw [expand_strict] at h
    cases hfailures : failures definitions source text with
    | nil =>
      rw [hfailures] at h
      exact (Except.ok.inj h).symm
    | cons first rest =>
      rw [hfailures] at h
      cases h
  | report embed =>
    rw [expand_report] at h
    exact (Except.ok.inj h).symm

theorem text_of_expand {text : Text} {mode : ErrorMode} {expansion : Expansion}
    (h : expand definitions source mode text = .ok expansion) :
    expansion.text = assemble definitions source mode text := by
  rw [eq_of_expand definitions source h]

theorem errors_of_expand {text : Text} {mode : ErrorMode} {expansion : Expansion}
    (h : expand definitions source mode text = .ok expansion) :
    expansion.errors = failures definitions source text := by
  rw [eq_of_expand definitions source h]

theorem length_failures (text : Text) :
    (failures definitions source text).length = text.lines.countP (fails definitions) := by
  rw [failures]
  generalize 1 = start
  induction text.lines generalizing start with
  | nil => rfl
  | cons line rest ih =>
    rw [List.zipIdx_cons, List.countP_cons, ← ih (start + 1)]
    cases hfailure : failure? definitions source line start with
    | none =>
      have hline := (failure?_eq_none_iff definitions source line start).mp hfailure
      simp [hfailure, hline]
    | some error =>
      have hline : fails definitions line = true := by
        by_contra hnot
        have hnone := (failure?_eq_none_iff definitions source line start).mpr (by simpa using hnot)
        rw [hfailure] at hnone
        cases hnone
      simp [hfailure, hline]

theorem expand_of_not_fails {text : Text} (h : ∀ line ∈ text.lines, fails definitions line = false)
    (mode : ErrorMode) :
    expand definitions source mode text = .ok ⟨assemble definitions source mode text, []⟩ := by
  have hfailures : failures definitions source text = [] := by
    rw [← List.length_eq_zero_iff, length_failures, List.countP_eq_zero]
    simpa using h
  cases mode with
  | strict => rw [expand_strict, hfailures]
  | report embed => rw [expand_report, hfailures]

end Modes

/-! ## Places -/

theorem placeOf_ne_nil (source : Option Text) (number : Nat) : placeOf source number ≠ [] := by
  have hnumber : Text.ofNat number ≠ [] := Nat.toDigits_ne_nil
  cases source with
  | none => exact List.append_ne_nil_of_right_ne_nil _ hnumber
  | some path => exact List.append_ne_nil_of_right_ne_nil _ hnumber

theorem singleLine_placeOf {source : Option Text} (hsource : ∀ path ∈ source, SingleLine path)
    (number : Nat) : SingleLine (placeOf source number) := by
  cases source with
  | none => exact (singleLine_literal (by decide)).append (singleLine_ofNat number)
  | some path =>
    exact ((hsource path rfl).append (singleLine_literal (by decide))).append
      (singleLine_ofNat number)

/-- A failure stands at the place of a line that fails for its cause. -/
theorem exists_of_mem_failures {definitions : List Definition} {source : Option Text} {text : Text}
    {error : PlacedError} (h : error ∈ failures definitions source text) :
    ∃ line ∈ text.lines, ∃ number, error.place = placeOf source number ∧
      lineOutcome definitions line = .failed error.cause := by
  rw [failures] at h
  obtain ⟨⟨line, number⟩, hmem, hfailure⟩ := List.mem_filterMap.mp h
  dsimp only at hfailure
  rw [failure?, ExaminedLine.error?, examineLine] at hfailure
  dsimp only at hfailure
  split at hfailure
  · rename_i cause houtcome
    cases hfailure
    exact ⟨line, List.fst_mem_of_mem_zipIdx hmem, number, rfl, houtcome⟩
  · cases hfailure

theorem place_of_mem_failures {definitions : List Definition} {source : Option Text} {text : Text}
    {error : PlacedError} (h : error ∈ failures definitions source text) : error.place ≠ [] := by
  obtain ⟨_, _, number, hplace, _⟩ := exists_of_mem_failures h
  rw [hplace]
  exact placeOf_ne_nil source number

/-! ## Reports -/

theorem dropPlace_append {place : Text} (hplace : place ≠ []) (rest : Text) :
    Report.dropPlace (some place) (place ++ ':' :: rest) = stripLeft rest := by
  have hopening : place ++ ':' :: rest = (place ++ [':']) ++ rest := by simp
  have hcolon : (":" : Text) = [':'] := rfl
  obtain ⟨c, others, rfl⟩ := List.exists_cons_of_ne_nil hplace
  unfold Report.dropPlace
  dsimp only
  rw [hcolon, hopening, if_pos (by simp), List.drop_left]

/-- The message shows its place, so the report takes that away and puts it back: the place is shown
once. -/
theorem line_errorReport {error : PlacedError} (hplace : error.place ≠ []) :
    (Build.errorReport error).line = ("[preprocess] ERROR " : Text) ++ error.message := by
  obtain ⟨place, cause⟩ := error
  obtain ⟨c, words, hmessage, hc⟩ := cause.worded_message
  have hmark : (": " : Text) = [':', ' '] := rfl
  have hdrop : Report.dropPlace (some place) (place ++ [':', ' '] ++ cause.message) =
      cause.message := by
    rw [List.append_assoc, List.cons_append, dropPlace_append hplace, hmessage]
    have hwords : stripLeft (c :: words) = c :: words := by
      refine stripLeft_eq_self ?_
      rintro d ⟨⟩
      exact hc
    exact hwords
  obtain ⟨d, others, rfl⟩ := List.exists_cons_of_ne_nil hplace
  have hlabel : (Build.enhanceLabel ++ " " ++ Level.error.word ++ " " : Text) =
      "[preprocess] ERROR " := by decide
  unfold Report.line Build.errorReport PlacedError.message
  dsimp only
  rw [hmark, hdrop, hlabel]
  generalize ("[preprocess] ERROR " : Text) = label
  simp only [List.append_assoc]

/-- The report of a failure is a single line. -/
theorem singleLine_of_mem_failures {definitions : List Definition} {source : Option Text}
    {text : Text} {error : PlacedError}
    (hdefinitions : ∀ definition ∈ definitions, definition.NamesSingleLine)
    (hsource : ∀ path ∈ source, SingleLine path) (h : error ∈ failures definitions source text) :
    SingleLine (("[preprocess] ERROR " : Text) ++ error.message) := by
  obtain ⟨failed, hfailed, number, hplace, houtcome⟩ := exists_of_mem_failures h
  have hcause := DirectiveError.singleLine_message
    (clear_of_failed hdefinitions (singleLine_of_mem_lines failed hfailed) houtcome)
  have hwhere : SingleLine error.place := hplace ▸ singleLine_placeOf hsource number
  exact (singleLine_literal (by decide)).append
    ((hwhere.append (singleLine_literal (by decide))).append hcause)

theorem lines_flatMap_lineFeed {ls : List Text} (h : ∀ line ∈ ls, SingleLine line) :
    Text.lines (ls.flatMap (· ++ ['\n'])) = ls := by
  induction ls with
  | nil => rfl
  | cons line rest ih =>
    obtain ⟨hline, hrest⟩ := List.forall_mem_cons.mp h
    rw [List.flatMap_cons, List.append_assoc, List.singleton_append, lines_append_lineFeed hline,
      ih hrest]

/-! ## Notes -/

/-- The line is a line of a note. -/
def IsNoteLine (line : Text) : Prop := SingleLine line ∧ line.head? = some '>'

theorem isNoteLine_literal {words : List Char} (h : SingleLine ('>' :: words)) :
    IsNoteLine (String.ofList ('>' :: words)).toList := by
  rw [String.toList_ofList]
  exact ⟨h, rfl⟩

theorem IsNoteLine.append {line other : Text} (h : IsNoteLine line) (hother : SingleLine other) :
    IsNoteLine (line ++ other) := by
  refine ⟨h.1.append hother, ?_⟩
  rw [List.head?_append, h.2]
  rfl

theorem lines_embeddedNote {place : Text} (hplace : SingleLine place) (message : Text) :
    (embeddedNote place message).lines.length = 4 ∧
      ∀ line ∈ (embeddedNote place message).lines, IsNoteLine line := by
  have hmessage : SingleLine (strip (join " " message.lines)) :=
    (singleLine_join (singleLine_literal (by decide)) singleLine_of_mem_lines).strip
  have hnote : ∀ line ∈ [("> **BUILD ERROR**" : Text), "> **Where:** " ++ place,
      "> **Message:** " ++ strip (join " " message.lines), "> (directive left unchanged)"],
      IsNoteLine line := by
    refine List.forall_mem_cons.mpr ⟨isNoteLine_literal (by decide), ?_⟩
    refine List.forall_mem_cons.mpr ⟨(isNoteLine_literal (by decide)).append hplace, ?_⟩
    refine List.forall_mem_cons.mpr ⟨(isNoteLine_literal (by decide)).append hmessage, ?_⟩
    exact List.forall_mem_singleton.mpr (isNoteLine_literal (by decide))
  have hlines : (embeddedNote place message).lines = [("> **BUILD ERROR**" : Text),
      "> **Where:** " ++ place, "> **Message:** " ++ strip (join " " message.lines),
      "> (directive left unchanged)"] := lines_unlines (fun line hline => (hnote line hline).1)
  rw [hlines]
  exact ⟨rfl, hnote⟩

/-- A line that fails is kept, in a run that embeds failures behind its note. -/
theorem contribution_of_fails {definitions : List Definition} {source : Option Text}
    (hsource : ∀ path ∈ source, SingleLine path) {line : Text} (number : Nat)
    (h : fails definitions line = true) :
    contribution definitions source (.report false) line number = [line] ∧
      ∃ note, contribution definitions source (.report true) line number = note ++ [line] ∧
        note.length = 4 ∧ ∀ noteLine ∈ note, IsNoteLine noteLine := by
  obtain ⟨cause, houtcome⟩ := (fails_eq_true_iff definitions).mp h
  obtain ⟨hlength, hnote⟩ := lines_embeddedNote (singleLine_placeOf hsource number)
    (PlacedError.message ⟨placeOf source number, cause⟩)
  rw [contribution_eq, contribution_eq, houtcome]
  exact ⟨rfl, _, rfl, hlength, hnote⟩

/-- A directive with one required parameter. -/
def note : Definition where
  name := "note"
  parameters := [⟨"body", .required⟩]
  template := "<b>$\x7bbody\x7d</b>"

end Folio.Directive
