import Folio.Proofs.Build.FailedLines

/-!
# An enhanced text is not its source

Putting pages into sections writes one more line that opens the first page, and no pass before it
takes such a line away: it is no directive, and no token stands in it. So an enhanced text has more
of these lines than its source (`openings_lt_enhanced`), and is another text (`enhanced_ne`).
-/

namespace Folio.Build

open Directive Page Text FileTree

/-- The number of lines that open the first page, but for blanks at their ends. -/
def openings (ls : List Text) : Nat := (ls.map stripRight).count (sectionOpening 1)

section Lines

variable {ls : List Text} {line : Text}

theorem openings_append (first rest : List Text) :
    openings (first ++ rest) = openings first + openings rest := by
  unfold openings
  rw [List.map_append, List.count_append]

theorem openings_cons (line : Text) (rest : List Text) :
    openings (line :: rest) = openings [line] + openings rest :=
  openings_append [line] rest

theorem openings_le_append (first rest : List Text) : openings rest ≤ openings (first ++ rest) := by
  rw [openings_append]
  exact Nat.le_add_left _ _

theorem openings_singleton_le (line : Text) : openings [line] ≤ 1 := List.count_le_length

theorem openings_pos (h : line ∈ ls) (hopening : stripRight line = sectionOpening 1) :
    0 < openings ls :=
  List.count_pos_iff.mpr (List.mem_map.mpr ⟨line, h, hopening⟩)

theorem openings_of_ne (h : stripRight line ≠ sectionOpening 1) : openings [line] = 0 :=
  List.count_eq_zero.mpr fun hmem => h (List.mem_singleton.mp hmem).symm

/-- A pass that keeps the lines that open the first page has at least as many of them. -/
theorem openings_le_flatMap {α : Type} (members : List α) (line : α → Text) (pass : α → List Text)
    (h : ∀ member ∈ members, stripRight (line member) = sectionOpening 1 →
      line member ∈ pass member) :
    openings (members.map line) ≤ openings (members.flatMap pass) := by
  induction members with
  | nil => exact Nat.le_refl _
  | cons member rest ih =>
    obtain ⟨hmember, hrest⟩ := List.forall_mem_cons.mp h
    have hle := ih hrest
    rw [List.map_cons, openings_cons, List.flatMap_cons, openings_append]
    by_cases hopening : stripRight (line member) = sectionOpening 1
    · have hone := openings_singleton_le (line member)
      have hpos := openings_pos (hmember hopening) hopening
      omega
    · have hzero := openings_of_ne hopening
      omega

theorem openings_le_of_mem {α : Type} {members : List α} {member : α} (h : member ∈ members)
    (pass : α → List Text) : openings (pass member) ≤ openings (members.flatMap pass) := by
  obtain ⟨front, back, rfl⟩ := List.append_of_mem h
  rw [List.flatMap_append, List.flatMap_cons, openings_append, openings_append]
  omega

/-- Blanks behind a text do not matter. -/
theorem openings_lines_append {blanks : Text} (h : ∀ c ∈ blanks, isBlank c = true) (text : Text) :
    openings (lines (text ++ blanks)) = openings (lines text) := by
  obtain ⟨rest, hrest, hblank⟩ := exists_map_stripRight_lines_append h text
  have hnone : rest.count (sectionOpening 1) = 0 :=
    List.count_eq_zero.mpr fun hmem => absurd (hblank _ hmem) (List.cons_ne_nil _ _)
  unfold openings
  rw [hrest, List.count_append, hnone, Nat.add_zero]

theorem openings_lines_stripRight (text : Text) :
    openings (lines (stripRight text)) = openings (lines text) := by
  obtain ⟨right, hright, hblank⟩ := exists_stripRight text
  have happend := openings_lines_append hblank (stripRight text)
  rw [← hright] at happend
  exact happend.symm

/-- A line that opens a page has no bracket. -/
theorem not_mem_of_opening (h : stripRight line = sectionOpening 1) : '[' ∉ line := by
  obtain ⟨right, hright, hblank⟩ := exists_stripRight line
  rw [hright, h, List.mem_append, not_or]
  refine ⟨by decide, fun hmem => ?_⟩
  exact absurd (hblank '[' hmem) (by decide)

end Lines

/-! ## The passes -/

section Passes

variable {definitions : List Definition} {rules : Bindings} {line : Text}

theorem lineOutcome_of_opening (h : stripRight line = sectionOpening 1) :
    lineOutcome definitions line = .kept := by
  refine lineOutcome_of_none (Option.eq_none_iff_forall_ne_some.mpr fun directive hwhole => ?_)
  obtain ⟨rfl, hbegins, -⟩ := wholeLine?_eq_some_iff.mp hwhole
  exact absurd (mem_of_mem_strip (hbegins.subset (by decide))) (not_mem_of_opening h)

/-- Expanding keeps the lines that open the first page. -/
theorem openings_le_contributions (definitions : List Definition) (source : Option Text)
    (mode : ErrorMode) (text : Text) :
    openings text.lines ≤ openings ((text.lines.zipIdx 1).flatMap fun (line, number) =>
      contribution definitions source mode line number) := by
  have hkept := openings_le_flatMap (text.lines.zipIdx 1) Prod.fst
    (fun (line, number) => contribution definitions source mode line number) <| by
      rintro ⟨line, number⟩ - hopening
      dsimp only
      rw [contribution_eq, lineOutcome_of_opening hopening]
      exact List.mem_singleton.mpr rfl
  rwa [List.zipIdx_map_fst] at hkept

/-- Replacing tokens in closed lines keeps the lines that open the first page. -/
theorem openings_le_replaceAll (h : WithinLines rules) (hbracket : ∀ rule ∈ rules, '[' ∈ rule.1)
    {ls : List Text} (hls : ∀ line ∈ ls, SingleLine line) :
    openings ls ≤ openings (lines (replaceAll rules (ls.flatMap (· ++ ['\n'])))) := by
  have hlines : lines (replaceAll rules (ls.flatMap (· ++ ['\n']))) = rewrittenLines rules ls := by
    have hclosed := lines_replaceAll_closed rules ls (replaceAll rules [])
    rw [← replaceAll_closed h, List.append_nil, replaceAll_nil h, lines, List.append_nil] at hclosed
    exact hclosed
  have hkept := openings_le_flatMap ls id
    (fun line => lines (replaceAll rules line ++ ['\n'])) <| by
    intro line hline hopening
    have habsent : ∀ rule ∈ rules, ¬ rule.1 <:+: line := fun rule hrule hwithin =>
      not_mem_of_opening hopening (hwithin.subset (hbracket rule hrule))
    rw [id, replaceAll_of_absent h.ne_nil habsent, lines_append_lineFeed (hls line hline)]
    exact List.mem_cons_self
  rw [hlines]
  rwa [List.map_id] at hkept

theorem singleLine_of_replaced {ls : List Text} (h : lineOutcome definitions line = .replaced ls) :
    ∀ other ∈ ls, SingleLine other := by
  obtain ⟨directive, text, -, -, rfl⟩ := lineOutcome_eq_replaced_iff.mp h
  exact fun other => singleLine_of_mem_lines other

/-- What a line contributes are lines. -/
theorem singleLine_contribution (source : Option Text) (mode : ErrorMode) (number : Nat)
    (hline : SingleLine line) :
    ∀ other ∈ contribution definitions source mode line number, SingleLine other := by
  have hself : ∀ other ∈ [line], SingleLine other := List.forall_mem_singleton.mpr hline
  rw [contribution_eq]
  cases houtcome : lineOutcome definitions line with
  | kept => exact hself
  | replaced ls => exact singleLine_of_replaced houtcome
  | failed cause =>
    dsimp only
    split
    · intro other hother
      rcases List.mem_append.mp hother with hnote | hother
      · exact singleLine_of_mem_lines other hnote
      · exact hself other hother
    · exact hself

/-- The same for lines that are put together, with a line feed at the end or without one. -/
theorem openings_le_unlines (h : WithinLines rules) (hbracket : ∀ rule ∈ rules, '[' ∈ rule.1)
    {ls : List Text} (hls : ∀ line ∈ ls, SingleLine line) {ending : Text}
    (hending : ending = ['\n'] ∨ ending = []) :
    openings ls ≤ openings (lines (replaceAll rules (unlines ls ++ ending))) := by
  by_cases hnil : ls = []
  · rw [hnil]
    exact Nat.zero_le _
  · have hle := openings_le_replaceAll h hbracket hls
    rw [flatMap_lineFeed hnil] at hle
    rcases hending with rfl | rfl
    · exact hle
    · have hblank : ∀ c ∈ ['\n'], isBlank c = true := by
        intro c hc
        rw [List.mem_singleton.mp hc]
        decide
      rw [List.append_nil]
      rwa [replaceAll_append_lineFeed h, replaceAll_nil h, openings_lines_append hblank] at hle

/-- Putting pages into sections keeps the lines that open the first page. -/
theorem openings_le_sectionLines (number : Nat) (ls : List Text) :
    openings ls ≤ openings (sectionLines number ls) := by
  induction ls generalizing number with
  | nil => exact Nat.zero_le _
  | cons line rest ih =>
    rw [sectionLines]
    split
    · rename_i hpage
      have hclosed : openings [line] = 0 := by
        refine openings_of_ne fun hopening => ?_
        have hstrip : line.strip = ("[[page]]" : Text) := by simpa [isPageBreak] using hpage
        refine not_mem_of_opening hopening (mem_of_mem_strip ?_)
        rw [hstrip]
        decide
      rw [openings_cons line, hclosed, Nat.zero_add]
      exact (ih (number + 1)).trans
        (openings_le_append ["", "</section>", "", sectionOpening (number + 1), ""] _)
    · rw [openings_cons line rest, openings_cons line (sectionLines number rest)]
      exact Nat.add_le_add_left (ih number) _

end Passes

/-! ## Enhancing -/

variable {tree : FileTree} {home : Location} {source : Path} {mode : ErrorMode}
  {definitions : Definitions}

/-- An enhanced text has one more line that opens the first page than the text with its tokens
replaced. -/
theorem openings_replaceAll_lt {source : Option Text} {text : Text} {expanded enhanced : Expansion}
    (hexpand : expand definitions.directives source mode text = .ok expanded)
    (h : enhance definitions source mode text = .ok enhanced) :
    openings (lines (replaceAll definitions.tokens expanded.text)) <
      openings enhanced.text.lines := by
  obtain ⟨expanded', hexpand', htext⟩ := exists_of_enhance h
  obtain rfl := Except.ok.inj (hexpand.symm.trans hexpand')
  calc openings (lines (replaceAll definitions.tokens expanded.text))
    _ = openings (substitute definitions.tokens expanded.text).lines := by
      rw [substitute_eq]
      split
      · rfl
      · exact (openings_lines_stripRight _).symm
    _ ≤ openings (sectionLines 1 (substitute definitions.tokens expanded.text).lines) :=
      openings_le_sectionLines 1 _
    _ < openings enhanced.text.lines := by
      have hopening : 0 < openings [sectionOpening 1, ""] :=
        openings_pos List.mem_cons_self (by decide)
      rw [htext, lines_addSections]
      exact (Nat.lt_add_of_pos_left hopening).trans_eq
        (openings_append [sectionOpening 1, ""] _).symm

/-- No pass takes away a line that opens the first page from what the lines contribute. -/
theorem openings_contributions_lt {source : Option Text} {text : Text} {enhanced : Expansion}
    (hrules : WithinLines definitions.tokens)
    (hbracket : ∀ rule ∈ definitions.tokens, '[' ∈ rule.1)
    (h : enhance definitions source mode text = .ok enhanced) :
    openings ((text.lines.zipIdx 1).flatMap fun (line, number) =>
      contribution definitions.directives source mode line number) <
        openings enhanced.text.lines := by
  obtain ⟨expanded, hexpand, -⟩ := exists_of_enhance h
  have hsingle : ∀ line ∈ (text.lines.zipIdx 1).flatMap fun (line, number) =>
      contribution definitions.directives source mode line number, SingleLine line := by
    intro line hline
    obtain ⟨⟨written, number⟩, hmem, hline⟩ := List.mem_flatMap.mp hline
    exact singleLine_contribution _ mode number
      (singleLine_of_mem_lines written (List.fst_mem_of_mem_zipIdx hmem)) line hline
  have hending : (if text.getLast? = some '\n' then ['\n'] else []) = ['\n'] ∨
      (if text.getLast? = some '\n' then ['\n'] else []) = [] := by
    split
    · exact .inl rfl
    · exact .inr rfl
  refine lt_of_le_of_lt ?_ (openings_replaceAll_lt hexpand h)
  rw [text_of_expand _ _ hexpand]
  exact openings_le_unlines hrules hbracket hsingle hending

theorem opening_mem_tokens (directives : List Definition) :
    ∀ rule ∈ (Definitions.ofDirectives directives).tokens, '[' ∈ rule.1 := by
  intro rule hrule
  obtain ⟨definition, -, rfl⟩ := List.mem_map.mp hrule
  exact List.mem_cons_self

/-- An enhanced text has one more line that opens the first page than its source has. -/
theorem openings_lt_enhanced {text : Text} {expansion : Expansion}
    (hdefinitions : definitionsAt tree home definitionsPath = .ok definitions)
    (h : enhance definitions (some source.text) mode text = .ok expansion) :
    openings text.lines < openings expansion.text.lines := by
  have hbracket := opening_mem_tokens definitions.directives
  rw [← (declared_of_definitionsAt hdefinitions).eq_ofDirectives] at hbracket
  exact lt_of_le_of_lt (openings_le_contributions _ _ mode text)
    (openings_contributions_lt (withinLines_of_definitionsAt hdefinitions) hbracket h)

/-- An enhanced text is not the text that it was made of. -/
theorem enhanced_ne {text : Text} {expansion : Expansion}
    (hdefinitions : definitionsAt tree home definitionsPath = .ok definitions)
    (h : enhance definitions (some source.text) mode text = .ok expansion) :
    expansion.text ≠ text := by
  intro hsame
  have hlt := openings_lt_enhanced hdefinitions h
  rw [hsame] at hlt
  exact Nat.lt_irrefl _ hlt

end Folio.Build
