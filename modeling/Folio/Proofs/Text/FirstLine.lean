import Folio.Proofs.Text.Lines
import Mathlib.Data.List.Basic

/-!
# The first line of a text, and blanks at its end

Blanks at the end of a text do not matter for its lines, but for blanks at the end of the last one
and for blank lines behind it (`map_stripRight_lines_prefix`). In particular the first line of a
text keeps everything but such blanks (`stripRight_firstLine`).
-/

namespace Folio.Text

/-! ## Blanks at the end -/

theorem exists_stripRight (text : Text) :
    ∃ right, text = stripRight text ++ right ∧ ∀ c ∈ right, isBlank c = true := by
  obtain ⟨left, hleft, hblank, -⟩ := exists_stripLeft text.reverse
  refine ⟨left.reverse, ?_, by simpa using hblank⟩
  have hreverse := congrArg List.reverse hleft
  rw [List.reverse_reverse, List.reverse_append] at hreverse
  exact hreverse

/-- Blanks behind a text with other characters are all that goes. -/
theorem stripRight_append_of_not_blank (front : Text) {text : Text}
    (h : ∃ c ∈ text, isBlank c = false) :
    stripRight (front ++ text) = front ++ stripRight text := by
  have hsome : text.reverse.dropWhile isBlank ≠ [] := by
    intro hnil
    obtain ⟨c, hc, hblank⟩ := h
    have hall := List.dropWhile_eq_nil_iff.mp hnil c (List.mem_reverse.mpr hc)
    rw [hblank] at hall
    cases hall
  unfold stripRight
  rw [List.reverse_append, List.dropWhile_append,
    if_neg (by simpa using hsome), List.reverse_append, List.reverse_reverse]

theorem stripRight_of_blank {text : Text} (h : ∀ c ∈ text, isBlank c = true) :
    stripRight text = [] := by
  have hblank := stripRight_append h []
  rwa [List.nil_append] at hblank

/-- A character in front matters only if nothing else is left. -/
theorem stripRight_cons_congr (c : Char) {text other : Text}
    (h : stripRight text = stripRight other) :
    stripRight (c :: text) = stripRight (c :: other) := by
  obtain ⟨right, hright, hblank⟩ := exists_stripRight text
  obtain ⟨right', hright', hblank'⟩ := exists_stripRight other
  rw [hright, hright', ← List.cons_append, ← List.cons_append, stripRight_append hblank,
    stripRight_append hblank', h]

/-- Trimming at both ends begins with trimming at the end as well. -/
theorem strip_stripRight (text : Text) : strip (stripRight text) = strip text := by
  obtain ⟨right, hright, hblank⟩ := exists_stripRight text
  have hleft : strip (stripRight text ++ right) = strip (stripRight text) := by
    unfold strip stripLeft
    rw [List.dropWhile_append]
    split
    · rename_i hnil
      have hright' : right.dropWhile isBlank = [] := List.dropWhile_eq_nil_iff.mpr hblank
      rw [hright', List.isEmpty_iff.mp hnil]
    · exact stripRight_append hblank _
  rw [← hleft, ← hright]

theorem strip_congr {text other : Text} (h : stripRight text = stripRight other) :
    strip text = strip other := by
  rw [← strip_stripRight text, ← strip_stripRight other, h]

/-! ## The first line -/

/-- What stands before the first line break. -/
def firstLine (text : Text) : Text := text.takeWhile fun c => !isLineBreak c

theorem firstLine_of_singleLine {text : Text} (h : SingleLine text) : firstLine text = text := by
  unfold firstLine
  rw [List.takeWhile_eq_self_iff]
  intro c hc
  rw [h c hc]
  rfl

theorem firstLine_cons_of_break {c : Char} (h : isLineBreak c = true) (rest : Text) :
    firstLine (c :: rest) = [] :=
  List.takeWhile_cons_of_neg (by simp [h])

theorem firstLine_cons_of_not_break {c : Char} (h : isLineBreak c = false) (rest : Text) :
    firstLine (c :: rest) = c :: firstLine rest :=
  List.takeWhile_cons_of_pos (by simp [h])

theorem firstLine_append_lineFeed (text rest : Text) :
    firstLine (text ++ '\n' :: rest) = firstLine text := by
  induction text with
  | nil => exact firstLine_cons_of_break rfl rest
  | cons c text ih =>
    cases hbreak : isLineBreak c with
    | true => rw [List.cons_append, firstLine_cons_of_break hbreak, firstLine_cons_of_break hbreak]
    | false =>
      rw [List.cons_append, firstLine_cons_of_not_break hbreak,
        firstLine_cons_of_not_break hbreak, ih]

/-- The first line keeps all but blanks if the blanks at the end of the text go. -/
theorem stripRight_firstLine (text : Text) :
    stripRight (firstLine (stripRight text)) = stripRight (firstLine text) := by
  obtain ⟨right, hright, hblank⟩ := exists_stripRight text
  have hfirst : stripRight (firstLine (stripRight text ++ right)) =
      stripRight (firstLine (stripRight text)) := by
    unfold firstLine
    rw [List.takeWhile_append]
    split
    · rename_i hwhole
      have hself := (List.takeWhile_prefix (fun c => !isLineBreak c)).eq_of_length hwhole
      rw [hself]
      exact stripRight_append (fun c hc => hblank c ((List.takeWhile_prefix _).subset hc)) _
    · rfl
  rw [← hfirst, ← hright]

/-! ## Lines -/

/-- A line break ends a line, unless it is the first half of one. -/
theorem lines_cons_of_break {c : Char} {rest : Text} (h : isLineBreak c = true)
    (hhalf : c = '\r' → rest.head? ≠ some '\n') : lines (c :: rest) = [] :: lines rest := by
  rw [lines]
  · rw [if_pos h]
  · rintro rest' hc rfl
    exact hhalf hc rfl

theorem exists_lines_eq_cons {text : Text} (h : text ≠ []) :
    ∃ others, lines text = firstLine text :: others := by
  fun_induction lines text with
  | case1 => exact absurd rfl h
  | case2 rest ih => exact ⟨lines rest, by rw [firstLine_cons_of_break rfl]⟩
  | case3 c rest hnot hbreak ih => exact ⟨lines rest, by rw [firstLine_cons_of_break hbreak]⟩
  | case4 c rest hnot hbreak ih =>
    rw [firstLine_cons_of_not_break (by simpa using hbreak)]
    by_cases hrest : rest = []
    · subst hrest
      exact ⟨[], rfl⟩
    · obtain ⟨others, hothers⟩ := ih hrest
      exact ⟨others, by rw [hothers]; rfl⟩

/-- A line feed ends a line, whatever stands before it. -/
theorem lines_append_break (text rest : Text) :
    lines (text ++ '\n' :: rest) = lines (text ++ ['\n']) ++ lines rest := by
  induction text using lines.induct with
  | case1 => exact lines_append_lineFeed SingleLine.nil
  | case2 text ih =>
    rw [List.cons_append, List.cons_append, List.cons_append, List.cons_append, lines, lines, ih,
      List.cons_append]
  | case3 c text hnot hbreak ih =>
    by_cases hempty : text = [] ∧ c = '\r'
    · -- The line feed is the second half of the break.
      obtain ⟨rfl, rfl⟩ := hempty
      have hwhole : lines ('\r' :: '\n' :: rest) = [] :: lines rest := by rw [lines]
      exact hwhole
    · have hhalf (tail : Text) : c = '\r' → (text ++ '\n' :: tail).head? ≠ some '\n' := by
        intro hc
        cases text with
        | nil => exact absurd ⟨rfl, hc⟩ hempty
        | cons d others =>
          rintro ⟨⟩
          exact hnot others hc rfl
      rw [List.cons_append, List.cons_append, lines_cons_of_break hbreak (hhalf rest),
        lines_cons_of_break hbreak (hhalf []), ih, List.cons_append]
  | case4 c text hnot hbreak ih =>
    have hc : isLineBreak c = false := by simpa using hbreak
    obtain ⟨others, hothers⟩ := exists_lines_eq_cons (List.append_ne_nil_of_right_ne_nil text
      (List.cons_ne_nil '\n' []))
    rw [List.cons_append, List.cons_append, lines_cons_of_not_break hc,
      lines_cons_of_not_break hc, ih, hothers]
    rfl

/-- Every line but the last one is closed with a line feed. -/
theorem unlines_append_cons (front : List Text) (line : Text) (rest : List Text) :
    unlines (front ++ line :: rest) = front.flatMap (· ++ ['\n']) ++ unlines (line :: rest) := by
  induction front with
  | nil => rfl
  | cons first front ih =>
    obtain ⟨second, others, hsplit⟩ : ∃ second others, front ++ line :: rest = second :: others :=
      List.exists_cons_of_ne_nil (by simp)
    rw [List.cons_append, hsplit, unlines_cons_cons, ← hsplit, ih,
      List.flatMap_cons, List.append_assoc, List.append_assoc, List.singleton_append]

theorem unlines_append_lineFeed {ls : List Text} (h : ls ≠ []) :
    unlines ls ++ ['\n'] = unlines (ls ++ [[]]) := by
  obtain ⟨front, last, rfl⟩ := (List.eq_nil_or_concat' ls).resolve_left h
  rw [List.append_assoc, unlines_append_cons, List.singleton_append, unlines_append_cons,
    unlines_cons_cons, unlines, unlines, join_singleton, join_singleton, List.append_assoc]

/-- Single lines that are put together and closed with a line feed are read back. -/
theorem lines_unlines_lineFeed {ls : List Text} (hne : ls ≠ []) (h : ∀ line ∈ ls, SingleLine line) :
    lines (unlines ls ++ ['\n']) = ls := by
  rw [unlines_append_lineFeed hne, lines_unlines h]

/-- Lines that are closed each on its own. -/
theorem flatMap_lineFeed {ls : List Text} (h : ls ≠ []) :
    ls.flatMap (· ++ ['\n']) = unlines ls ++ ['\n'] := by
  rw [unlines_append_lineFeed h, unlines_append_cons, unlines, join_singleton, List.append_nil]

theorem unlines_append {front rest : List Text} (hfront : front ≠ []) (hrest : rest ≠ []) :
    unlines (front ++ rest) = unlines front ++ '\n' :: unlines rest := by
  obtain ⟨line, others, rfl⟩ := List.exists_cons_of_ne_nil hrest
  rw [unlines_append_cons, flatMap_lineFeed hfront, List.append_assoc, List.singleton_append]

/-- Lines may be put together in groups first. -/
theorem unlines_flatMap {ls : List Text} {group : Text → List Text}
    (h : ∀ line ∈ ls, group line ≠ []) :
    unlines (ls.flatMap group) = unlines (ls.map fun line => unlines (group line)) := by
  induction ls with
  | nil => rfl
  | cons line rest ih =>
    obtain ⟨hline, hrest⟩ := List.forall_mem_cons.mp h
    rw [List.flatMap_cons, List.map_cons]
    cases rest with
    | nil => rw [List.flatMap_nil, List.append_nil, List.map_nil, unlines, unlines, join_singleton]
    | cons second others =>
      have hsecond : (second :: others).flatMap group ≠ [] := by
        rw [List.flatMap_cons]
        exact List.append_ne_nil_of_left_ne_nil (hrest second List.mem_cons_self) _
      rw [unlines_append hline hsecond, ih hrest, List.map_cons, unlines_cons_cons]

/-- A text with line feeds only is put together from its lines again. -/
theorem unlines_lines {text : Text} (h : LineFeedsOnly text) :
    unlines text.lines ++ (if text.getLast? = some '\n' then ['\n'] else []) = text := by
  induction text with
  | nil => rfl
  | cons c rest ih =>
    obtain ⟨hc, hrest⟩ := List.forall_mem_cons.mp h
    by_cases hnil : rest = []
    · subst hnil
      by_cases hbreak : isLineBreak c = true
      · rw [hc hbreak]
        rfl
      · have hne : c ≠ '\n' := by
          rintro rfl
          exact hbreak rfl
        rw [lines_cons_of_not_break (by simpa using hbreak)]
        simp [lines, consLine, unlines, hne]
    · obtain ⟨others, hothers⟩ := exists_lines_eq_cons hnil
      have hlast : (c :: rest).getLast? = rest.getLast? := by
        rw [← List.singleton_append, List.getLast?_append_of_ne_nil _ hnil]
      have hrest' := ih hrest
      rw [hothers] at hrest'
      rw [hlast]
      by_cases hbreak : isLineBreak c = true
      · rw [hc hbreak, ← List.nil_append ('\n' :: rest),
          lines_append_lineFeed SingleLine.nil, hothers,
          unlines_cons_cons, List.append_assoc, List.cons_append, hrest']
      · have hfirst : unlines ((c :: firstLine rest) :: others) =
            c :: unlines (firstLine rest :: others) := by
          cases others with
          | nil => rw [unlines, unlines, join_singleton, join_singleton]
          | cons second others => rw [unlines_cons_cons, unlines_cons_cons, List.cons_append]
        rw [lines_cons_of_not_break (by simpa using hbreak), hothers, consLine, hfirst,
          List.cons_append, hrest']

theorem lines_closed (ls : List Text) (rest : Text) :
    lines (ls.flatMap (· ++ ['\n']) ++ rest) =
      ls.flatMap (fun line => lines (line ++ ['\n'])) ++ lines rest := by
  induction ls with
  | nil => rfl
  | cons line ls ih =>
    rw [List.flatMap_cons, List.flatMap_cons, List.append_assoc, List.append_assoc,
      List.singleton_append, lines_append_break, ih, List.append_assoc]

theorem mem_of_mem_consLine {c d : Char} {ls : List Text} {line : Text}
    (hline : line ∈ consLine d ls) (hc : c ∈ line) : c = d ∨ ∃ other ∈ ls, c ∈ other := by
  cases ls with
  | nil =>
    obtain rfl := List.mem_singleton.mp hline
    exact .inl (List.mem_singleton.mp hc)
  | cons first others =>
    rcases List.mem_cons.mp hline with rfl | hline
    · rcases List.mem_cons.mp hc with rfl | hc
      · exact .inl rfl
      · exact .inr ⟨first, List.mem_cons_self, hc⟩
    · exact .inr ⟨line, List.mem_cons_of_mem _ hline, hc⟩

/-- The characters of the lines are characters of the text. -/
theorem mem_of_mem_lines {c : Char} {text : Text} : ∀ line ∈ lines text, c ∈ line → c ∈ text := by
  fun_induction lines text with
  | case1 => simp
  | case2 rest ih =>
    intro line hline hc
    rcases List.mem_cons.mp hline with rfl | hline
    · cases hc
    · simp [ih line hline hc]
  | case3 d rest hnot hd ih =>
    intro line hline hc
    rcases List.mem_cons.mp hline with rfl | hline
    · cases hc
    · exact List.mem_cons_of_mem _ (ih line hline hc)
  | case4 d rest hnot hd ih =>
    intro line hline hc
    rcases mem_of_mem_consLine hline hc with rfl | ⟨other, hother, hc⟩
    · exact List.mem_cons_self
    · exact List.mem_cons_of_mem _ (ih other hother hc)

theorem stripRight_of_mem_lines {blanks : Text} (h : ∀ c ∈ blanks, isBlank c = true) :
    ∀ line ∈ (lines blanks).map stripRight, line = [] := by
  intro line hline
  obtain ⟨written, hwritten, rfl⟩ := List.mem_map.mp hline
  exact stripRight_of_blank fun c hc => h c (mem_of_mem_lines written hwritten hc)

/-- Blanks behind a text change its last line at the end, and may put blank lines behind it. -/
theorem exists_map_stripRight_lines_append {blanks : Text} (h : ∀ c ∈ blanks, isBlank c = true)
    (text : Text) :
    ∃ rest, (lines (text ++ blanks)).map stripRight = (lines text).map stripRight ++ rest ∧
      ∀ line ∈ rest, line = [] := by
  induction text using lines.induct with
  | case1 => exact ⟨_, rfl, stripRight_of_mem_lines h⟩
  | case2 text ih =>
    obtain ⟨rest, hrest, hblank⟩ := ih
    refine ⟨rest, ?_, hblank⟩
    rw [List.cons_append, List.cons_append, lines, lines, List.map_cons, List.map_cons, hrest]
    rfl
  | case3 c text hnot hbreak ih =>
    have htext : c = '\r' → text.head? ≠ some '\n' := by
      intro hc hhead
      obtain ⟨others, rfl⟩ := List.head?_eq_some_iff.mp hhead
      exact hnot others hc rfl
    rw [lines_cons_of_break hbreak htext]
    by_cases hhalf : c = '\r' ∧ (text ++ blanks).head? = some '\n'
    · -- The text ends with the first half of a break, so it ends with this line.
      obtain ⟨rfl, hhead⟩ := hhalf
      obtain ⟨rest, hrest⟩ := List.head?_eq_some_iff.mp hhead
      obtain rfl : text = [] := by
        cases text with
        | nil => rfl
        | cons d others =>
          obtain ⟨rfl, -⟩ := List.cons.inj hrest
          exact absurd rfl (htext rfl)
      rw [List.nil_append] at hrest
      refine ⟨(lines rest).map stripRight, ?_, stripRight_of_mem_lines fun c hc => h c ?_⟩
      · rw [List.cons_append, List.nil_append, hrest, lines]
        rfl
      · rw [hrest]
        exact List.mem_cons_of_mem _ hc
    · obtain ⟨rest, hrest, hblank⟩ := ih
      refine ⟨rest, ?_, hblank⟩
      rw [List.cons_append, lines_cons_of_break hbreak (fun hc hhead => hhalf ⟨hc, hhead⟩),
        List.map_cons, List.map_cons, hrest]
      rfl
  | case4 c text hnot hbreak ih =>
    have hc : isLineBreak c = false := by simpa using hbreak
    rw [List.cons_append, lines_cons_of_not_break hc, lines_cons_of_not_break hc]
    by_cases hempty : text = []
    · subst hempty
      rw [List.nil_append]
      cases hlines : lines blanks with
      | nil => exact ⟨[], rfl, fun _ hline => absurd hline List.not_mem_nil⟩
      | cons first others =>
        have hblank := stripRight_of_mem_lines h
        rw [hlines] at hblank
        have hfirst : ∀ d ∈ first, isBlank d = true := fun d hd =>
          h d (mem_of_mem_lines first (hlines ▸ List.mem_cons_self) hd)
        refine ⟨others.map stripRight, ?_, fun line hline =>
          hblank line (List.mem_cons_of_mem _ hline)⟩
        exact congrArg (· :: others.map stripRight) (stripRight_append hfirst [c])
    · obtain ⟨others, hothers⟩ := exists_lines_eq_cons hempty
      obtain ⟨others', hothers'⟩ := exists_lines_eq_cons
        (List.append_ne_nil_of_left_ne_nil hempty blanks)
      obtain ⟨rest, hrest, hblank⟩ := ih
      rw [hothers, hothers', List.map_cons, List.map_cons, List.cons_append] at hrest
      obtain ⟨hfirst, hrest⟩ := List.cons.inj hrest
      refine ⟨rest, ?_, hblank⟩
      rw [hothers, hothers']
      exact congrArg₂ List.cons (stripRight_cons_congr c hfirst) hrest

/-- Without the blanks at its end a text has the same lines, but for blanks at the end of the last
one and for blank lines behind it. -/
theorem exists_map_stripRight_lines (text : Text) :
    ∃ rest, (lines text).map stripRight = (lines (stripRight text)).map stripRight ++ rest ∧
      ∀ line ∈ rest, line = [] := by
  obtain ⟨right, hright, hblank⟩ := exists_stripRight text
  have happend := exists_map_stripRight_lines_append hblank (stripRight text)
  rwa [← hright] at happend

theorem map_stripRight_lines_prefix (text : Text) :
    (lines (stripRight text)).map stripRight <+: (lines text).map stripRight := by
  obtain ⟨rest, hrest, -⟩ := exists_map_stripRight_lines text
  exact ⟨rest, hrest.symm⟩

end Folio.Text
