import Folio.Proofs.Build.Steps
import Folio.Proofs.Directive.ErrorModes
import Folio.Proofs.Page.Tokens

/-!
# What becomes of lines that fail

A run that goes on keeps every line that fails (`contribution_concat`). Two more passes go over the
expanded text, and neither of them knows which lines failed: tokens are replaced, and pages are put
into sections. The place of a line in the written file is found from the lines before it alone
(`linesBefore`), so it can be said what stands there in the end.

* `standsBehind_iff`: a line that fails stands at its place exactly if it does not end a page and
  the tokens leave it as it is.
* `failed_line_stands_iff`: the same of the file that is written, for every source and every file of
  definitions that is accepted.
* `not_failed_line_stands`: a directive without parameters is also a token, and `[[page]]` ends a
  page also if it is a call that fails. Neither line is left in the file.
-/

namespace Folio.Build

open Run FileTree Directive Page Text

/-! ## The place of a line -/

/-- The pieces of the expanded text before a line: what the lines before it contribute, and the note
on its failure. -/
def piecesBefore (definitions : List Definition) (source : Option Text) (mode : ErrorMode)
    (earlier : List Text) (line : Text) : List Text :=
  ((earlier.zipIdx 1).flatMap fun (line, number) =>
      contribution definitions source mode line number) ++
    (contribution definitions source mode line (1 + earlier.length)).dropLast

/-- The lines of pieces of a text in which tokens are replaced. -/
def rewrittenLines (rules : Bindings) (pieces : List Text) : List Text :=
  pieces.flatMap fun piece => lines (replaceAll rules piece ++ ['\n'])

/-- The lines of the written file before the place of a line of the source. -/
def linesBefore (definitions : Definitions) (source : Option Text) (mode : ErrorMode)
    (earlier : List Text) (line : Text) : List Text :=
  sectionOpening 1 :: "" :: pagedLines 1 (rewrittenLines definitions.tokens
    (piecesBefore definitions.directives source mode earlier line))

/-- The line stands in the text behind the given lines, but for blanks at its end. -/
def StandsBehind (front : List Text) (line text : Text) : Prop :=
  ∃ kept rest, text.lines = front ++ kept :: rest ∧ kept.stripRight = line.stripRight

/-- The line does not end a page, and is left as it is where tokens are replaced, but for blanks at
its end. -/
def Untouched (rules : Bindings) (line : Text) : Prop :=
  isPageBreak line = false ∧ (firstLine (replaceAll rules line)).stripRight = line.stripRight

instance (rules : Bindings) (line : Text) : Decidable (Untouched rules line) :=
  inferInstanceAs (Decidable (_ ∧ _))

/-! ## Expanding -/

section Expanding

variable {definitions : List Definition} {line : Text}

/-- A line that fails is a directive. -/
theorem brackets_of_fails (h : fails definitions line = true) : ("[[" : Text) <+: line.strip := by
  obtain ⟨cause, houtcome⟩ := (fails_eq_true_iff definitions).mp h
  obtain ⟨directive, hwhole, -⟩ := lineOutcome_eq_failed_iff.mp houtcome
  obtain ⟨rfl, hopening, -⟩ := wholeLine?_eq_some_iff.mp hwhole
  exact hopening

/-- A run that goes on keeps the line that fails, behind whatever it notes about it. -/
theorem contribution_concat (source : Option Text) (embed : Bool) (number : Nat)
    (h : fails definitions line = true) :
    contribution definitions source (.report embed) line number =
      (contribution definitions source (.report embed) line number).dropLast ++ [line] := by
  obtain ⟨cause, houtcome⟩ := (fails_eq_true_iff definitions).mp h
  rw [contribution_eq, houtcome]
  cases embed with
  | true => exact (congrArg (· ++ [line]) List.dropLast_concat).symm
  | false => rfl

/-- The expanded text up to a line that fails; only a line feed can follow that line. -/
theorem exists_assemble_eq (source : Option Text) (embed : Bool) {text : Text}
    {earlier later : List Text} (hlines : text.lines = earlier ++ line :: later)
    (h : fails definitions line = true) :
    ∃ tail, (tail = [] ∨ ∃ more, tail = '\n' :: more) ∧
      assemble definitions source (.report embed) text =
        (piecesBefore definitions source (.report embed) earlier line).flatMap (· ++ ['\n']) ++
          (line ++ tail) := by
  unfold assemble
  rw [hlines, List.zipIdx_append, List.zipIdx_cons, List.flatMap_append, List.flatMap_cons]
  dsimp only
  rw [contribution_concat source embed _ h, List.append_assoc, List.singleton_append,
    ← List.append_assoc, unlines_append_cons, List.append_assoc]
  generalize (later.zipIdx _).flatMap _ = others
  generalize hclose : (if text.getLast? = some '\n' then ['\n'] else []) = close
  cases others with
  | nil =>
    refine ⟨close, ?_, by rw [unlines, join_singleton]; rfl⟩
    split at hclose
    · exact .inr ⟨[], hclose.symm⟩
    · exact .inl hclose.symm
  | cons second others =>
    refine ⟨'\n' :: (unlines (second :: others) ++ close), .inr ⟨_, rfl⟩, ?_⟩
    rw [unlines_cons_cons, List.append_assoc, List.cons_append]
    rfl

end Expanding

/-! ## Replacing tokens -/

section Replacing

variable {rules : Bindings} {rest : Text}

theorem lines_replaceAll_closed (rules : Bindings) (pieces : List Text) (rest : Text) :
    lines ((pieces.map (replaceAll rules)).flatMap (· ++ ['\n']) ++ rest) =
      rewrittenLines rules pieces ++ lines rest := by
  rw [lines_closed, List.flatMap_map]
  rfl

/-- What follows the pieces begins a line, unless nothing but blanks is left of it. -/
theorem exists_lines_substitute (h : WithinLines rules) (pieces : List Text)
    (hsome : ∃ c ∈ replaceAll rules rest, isBlank c = false) :
    ∃ kept others,
      lines (substitute rules (pieces.flatMap (· ++ ['\n']) ++ rest)) =
        rewrittenLines rules pieces ++ kept :: others ∧
      stripRight kept = stripRight (firstLine (replaceAll rules rest)) := by
  obtain ⟨c, hc, hblank⟩ := hsome
  have hne : stripRight (replaceAll rules rest) ≠ [] := by
    intro hnil
    obtain ⟨right, hright, hblanks⟩ := exists_stripRight (replaceAll rules rest)
    rw [hnil, List.nil_append] at hright
    rw [hblanks c (hright ▸ hc)] at hblank
    cases hblank
  rw [substitute_eq, replaceAll_closed h]
  split
  · obtain ⟨others, hothers⟩ := exists_lines_eq_cons (List.ne_nil_of_mem hc)
    exact ⟨_, others, by rw [lines_replaceAll_closed, hothers], rfl⟩
  · obtain ⟨others, hothers⟩ := exists_lines_eq_cons hne
    refine ⟨_, others, ?_, stripRight_firstLine _⟩
    rw [stripRight_append_of_not_blank _ ⟨c, hc, hblank⟩, lines_replaceAll_closed, hothers]

/-- If nothing but blanks is left behind the pieces, the text may even end before. -/
theorem begins_lines_substitute (h : WithinLines rules) (hrules : rules ≠ []) (pieces : List Text)
    (hblank : ∀ c ∈ replaceAll rules rest, isBlank c = true) :
    (lines (substitute rules (pieces.flatMap (· ++ ['\n']) ++ rest))).map stripRight <+:
      (rewrittenLines rules pieces).map stripRight := by
  rw [substitute_eq, if_neg hrules, replaceAll_closed h, stripRight_append hblank]
  have hlines := lines_replaceAll_closed rules pieces []
  rw [List.append_nil, lines, List.append_nil] at hlines
  rw [← hlines]
  exact map_stripRight_lines_prefix _

theorem firstLine_replaceAll (h : WithinLines rules) (line : Text) {tail : Text}
    (htail : tail = [] ∨ ∃ more, tail = '\n' :: more) :
    firstLine (replaceAll rules (line ++ tail)) = firstLine (replaceAll rules line) := by
  rcases htail with rfl | ⟨more, rfl⟩
  · rw [List.append_nil]
  · rw [replaceAll_append_lineFeed h, firstLine_append_lineFeed]

theorem untouched_of_absent (h : WithinLines rules) {line : Text} (hline : SingleLine line)
    (hpage : isPageBreak line = false) (habsent : ∀ rule ∈ rules, ¬ rule.1 <:+: line) :
    Untouched rules line :=
  ⟨hpage, by rw [replaceAll_of_absent h.ne_nil habsent, firstLine_of_singleLine hline]⟩

end Replacing

/-! ## Putting pages into sections -/

section Paging

variable {text line kept : Text} {front rest : List Text}

theorem standsBehind_addSections (hlines : lines text = front ++ kept :: rest)
    (hline : line.stripRight ≠ []) :
    StandsBehind (sectionOpening 1 :: "" :: pagedLines 1 front) line (addSections text) ↔
      isPageBreak kept = false ∧ kept.stripRight = line.stripRight := by
  unfold StandsBehind
  rw [lines_addSections, hlines, sectionLines_append]
  simp only [List.cons_append, List.cons.injEq, true_and, List.append_cancel_left_eq]
  rw [sectionLines]
  constructor
  · rintro ⟨found, others, hfound, hsame⟩
    split at hfound
    · obtain ⟨rfl, -⟩ := List.cons.inj hfound
      exact absurd hsame.symm hline
    · rename_i hpage
      obtain ⟨rfl, -⟩ := List.cons.inj hfound
      exact ⟨by simpa using hpage, hsame⟩
  · rintro ⟨hpage, hsame⟩
    rw [if_neg (by simp [hpage])]
    exact ⟨kept, _, rfl, hsame⟩

/-- Behind a text that ends before the place nothing stands there but the end of its section. -/
theorem not_standsBehind_of_ended (h : (lines text).map stripRight <+: front.map stripRight)
    (hline : ("[[" : Text) <+: line.strip) :
    ¬ StandsBehind (sectionOpening 1 :: "" :: pagedLines 1 front) line (addSections text) := by
  rintro ⟨kept, others, hlines, hsame⟩
  have hsections := sectionLines_append 1 (lines text) []
  rw [List.append_nil, sectionLines] at hsections
  rw [lines_addSections, hsections] at hlines
  simp only [List.cons_append, List.cons.injEq, true_and] at hlines
  have hlength := length_pagedLines_le h 1 1
  have hkept : kept ∈ [("" : Text), "</section>"] := by
    rcases List.append_eq_append_iff.mp hlines with ⟨between, -, hend⟩ | ⟨between, hfront, hend⟩
    · rw [hend]
      simp
    · rw [hfront, List.length_append] at hlength
      obtain rfl : between = [] := List.length_eq_zero_iff.mp (by omega)
      rw [List.nil_append] at hend
      rw [← hend]
      exact List.mem_cons_self
  rw [← strip_congr hsame] at hline
  rcases List.mem_pair.mp hkept with rfl | rfl
  · exact absurd hline (by decide)
  · exact absurd hline (by decide)

end Paging

/-! ## The whole text -/

theorem standsBehind_iff {definitions : Definitions} (hrules : WithinLines definitions.tokens)
    (source : Option Text) (embed : Bool) {text line : Text} {earlier later : List Text}
    (hlines : text.lines = earlier ++ line :: later)
    (hfails : fails definitions.directives line = true) :
    StandsBehind (linesBefore definitions source (.report embed) earlier line) line
        (addSections (substitute definitions.tokens
          (assemble definitions.directives source (.report embed) text))) ↔
      Untouched definitions.tokens line := by
  have hbrackets := brackets_of_fails hfails
  have hbracket : '[' ∈ line := mem_of_mem_strip (hbrackets.subset (by decide))
  have hline : line.stripRight ≠ [] := by
    intro hnil
    rw [← strip_stripRight, hnil] at hbrackets
    exact absurd hbrackets (by decide)
  obtain ⟨tail, htail, htext⟩ := exists_assemble_eq source embed hlines hfails
  have hfirst := firstLine_replaceAll hrules line htail
  unfold linesBefore Untouched
  rw [htext]
  by_cases hsome : ∃ c ∈ replaceAll definitions.tokens (line ++ tail), isBlank c = false
  · obtain ⟨kept, others, hkept, hsame⟩ := exists_lines_substitute hrules _ hsome
    rw [hfirst] at hsame
    rw [standsBehind_addSections hkept hline, hsame]
    refine and_congr_left fun huntouched => ?_
    rw [isPageBreak_congr (hsame.trans huntouched)]
  · have hblank : ∀ c ∈ replaceAll definitions.tokens (line ++ tail), isBlank c = true := by
      simpa using hsome
    have hne : definitions.tokens ≠ [] := by
      intro hnil
      rw [hnil] at hblank
      exact absurd (hblank '[' (List.mem_append_left _ hbracket)) (by decide)
    have hgone : stripRight (firstLine (replaceAll definitions.tokens line)) = [] := by
      rw [← hfirst]
      exact stripRight_of_blank fun c hc => hblank c ((List.takeWhile_prefix _).subset hc)
    refine iff_of_false (not_standsBehind_of_ended
      (begins_lines_substitute hrules hne _ hblank) hbrackets) ?_
    rintro ⟨-, hsame⟩
    exact hline (hsame.symm.trans hgone)

/-- Tokens come from names on one line. -/
theorem lineFeed_not_mem_tokenOf {name : Text} (h : SingleLine name) : '\n' ∉ tokenOf name := by
  have hsingle : SingleLine (tokenOf name) :=
    ((singleLine_literal (by decide)).append h).append (singleLine_literal (by decide))
  exact fun hfeed => absurd (hsingle '\n' hfeed) (by decide)

theorem withinLines_ofDirectives {directives : List Definition}
    (h : ∀ name ∈ directives.map (·.name), SingleLine name) :
    WithinLines (Definitions.ofDirectives directives).tokens := by
  intro rule hrule
  obtain ⟨definition, hmem, rfl⟩ := List.mem_map.mp hrule
  have hname := h definition.name (List.mem_map_of_mem (List.mem_filter.mp hmem).1)
  exact ⟨List.cons_ne_nil _ _, lineFeed_not_mem_tokenOf hname⟩

theorem withinLines_of_definitionsAt {tree : FileTree} {home : Location} {path : Path}
    {definitions : Definitions} (h : definitionsAt tree home path = .ok definitions) :
    WithinLines definitions.tokens := by
  have hnames : ∀ name ∈ definitions.directives.map (·.name), SingleLine name :=
    List.forall_mem_map.mpr fun definition hmem =>
      (namesSingleLine_of_definitionsAt h definition hmem).1
  rw [(declared_of_definitionsAt h).eq_ofDirectives]
  exact withinLines_ofDirectives hnames

/-! ## The written file -/

/-- The file can be written, once the folders above it have been made. -/
def Writable (target : Path) (tree : FileTree) (home : Location) : Prop :=
  ∃ folders location, tree.makeFolders home target.parent = (folders, .ok ()) ∧
    folders.locate home target.route = .ok location ∧ folders.isFolder location = false

section Files

variable {source target : Path} {before : Workspace}

/-- A text that is published where it can be is read back. -/
theorem exists_exec_publish (before : Workspace) (htarget : Writable target before.tree before.home)
    {text : Text} (hreturn : '\r' ∉ text) :
    ∃ after, exec (publish target text) before = (.ok ⟨⟩, after) ∧
      after.tree.readText before.home target.route = .ok text := by
  obtain ⟨folders, location, hfolders, hlocation, hplain⟩ := htarget
  have hwrite : folders.writeBytes before.home target.route (Utf8.encode text) =
      .ok (folders.insert location (.file (Utf8.encode text))) := by
    refine writeBytes_eq_ok_iff.mpr ⟨location, hlocation, fun hfolder => ?_, rfl⟩
    rw [isFolder_iff.mpr hfolder] at hplain
    cases hplain
  refine ⟨⟨before.home, folders.insert location (.file (Utf8.encode text)), before.console⟩, ?_,
    readText_of_writeBytes hreturn hwrite⟩
  unfold publish
  rw [exec_bind, exec_makeFolders, hfolders]
  dsimp only [Except.mapError]
  rw [exec_writeText, hwrite]

/-- Enhancing a file writes its enhanced text, and tells how many failures it has reported. -/
theorem exists_exec_enhanceFile {mode : ErrorMode} {expansion : Expansion}
    (hexpansion : enhancedAt source mode before.tree before.home = .ok expansion)
    (htarget : Writable target before.tree before.home) :
    ∃ after, exec (enhanceFile source target mode) before = (.ok expansion.errors.length, after) ∧
      after.tree.readText before.home target.route = .ok expansion.text := by
  obtain ⟨text, _, htext, -, -⟩ := enhancedAt_eq_ok_iff.mp hexpansion
  have hfound : foundAt source before.tree before.home = .ok () :=
    foundAt_eq_ok_iff.mpr (exists_of_readText htext)
  obtain ⟨after, hpublish, hread⟩ := exists_exec_publish
    { before with console := before.console.reportAll (expansion.errors.map errorReport) } htarget
    (not_mem_enhanced hexpansion)
  refine ⟨after, ?_, hread⟩
  rw [enhanceFile_eq, exec_bind, exec_read, hfound]
  dsimp only
  rw [exec_bind, exec_read, hexpansion]
  dsimp only
  rw [exec_bind, reportAll, exec_modify]
  dsimp only
  rw [exec_bind, hpublish]
  rfl

/-- **What becomes of the lines that fail**: a run that goes on writes a file in which such a line
stands at its place exactly if it does not end a page and is left as it is where tokens are
replaced. In particular it stands there if no token is within it. -/
theorem failed_line_stands_iff (embed : Bool) {text : Text} {definitions : Definitions}
    (hsource : before.tree.readText before.home source.route = .ok text)
    (hdefinitions : definitionsAt before.tree before.home definitionsPath = .ok definitions)
    (htarget : Writable target before.tree before.home) :
    ∃ after written,
      exec (enhanceFile source target (.report embed)) before =
        (.ok (text.lines.countP (fails definitions.directives)), after) ∧
      after.tree.readText before.home target.route = .ok written ∧
      ∀ earlier line later, text.lines = earlier ++ line :: later →
        fails definitions.directives line = true →
          (StandsBehind (linesBefore definitions (some source.text) (.report embed) earlier line)
              line written ↔ Untouched definitions.tokens line) ∧
          (isPageBreak line = false → (∀ rule ∈ definitions.tokens, ¬ rule.1 <:+: line) →
            StandsBehind (linesBefore definitions (some source.text) (.report embed) earlier line)
              line written) := by
  have hrules := withinLines_of_definitionsAt hdefinitions
  have henhance := congrArg (Except.map fun expansion : Expansion => { expansion with
    text := addSections (substitute definitions.tokens expansion.text) })
    (expand_report definitions.directives (some source.text) embed text)
  obtain ⟨after, hexec, hread⟩ := exists_exec_enhanceFile
    (enhancedAt_eq_ok_iff.mpr ⟨text, definitions, hsource, hdefinitions, henhance⟩) htarget
  rw [← length_failures definitions.directives (some source.text)]
  refine ⟨after, _, hexec, hread, ?_⟩
  intro earlier line later hlines hfails
  have hiff := standsBehind_iff hrules (some source.text) embed hlines hfails
  refine ⟨hiff, fun hpage habsent => hiff.mpr ?_⟩
  have hline : SingleLine line := singleLine_of_mem_lines line (by rw [hlines]; simp)
  exact untouched_of_absent hrules hline hpage habsent

end Files

/-- A folder with a file of definitions and a source. -/
def sheet (definitions text : Text) : Workspace where
  home := []
  tree := ⟨[(["tools"], .folder), (["tools", "preprocess.conf"], .file (Utf8.encode definitions)),
    (["s.md"], .file (Utf8.encode text))]⟩

/-- The number of failures in the source of a sheet, and the lines of the file that is written. -/
def sheetLines (definitions text : Text) : Except Failure Nat × Except ReadError (List Text) :=
  let (count, after) := exec (enhanceFile (Path.parse "s.md") (Path.parse "o/s.md") (.report false))
    (sheet definitions text)
  (count, (after.tree.readText [] (Path.parse "o/s.md").route).map lines)

/-- A sheet with a token, and with a call that lacks its argument. -/
def noteSheet : Workspace :=
  sheet "[[note, body]] = <b>$\x7bbody\x7d</b>\n[[A]] = a" "[[A]]c\n [[note]] \n"

/-- The call is left in the file, behind the opening of its section and what the line before it
gives. -/
theorem failed_line_stands_noteSheet :
    Writable (Path.parse "o/s.md") noteSheet.tree [] ∧
    ∃ after written,
      exec (enhanceFile (Path.parse "s.md") (Path.parse "o/s.md") (.report false)) noteSheet =
        (.ok 1, after) ∧
      after.tree.readText [] (Path.parse "o/s.md").route = .ok written ∧
      StandsBehind [sectionOpening 1, "", "ac"] " [[note]] " written := by
  have hsource : noteSheet.tree.readText noteSheet.home (Path.parse "s.md").route =
      .ok "[[A]]c\n [[note]] \n" := by decide +kernel
  have hdefinitions : definitionsAt noteSheet.tree noteSheet.home definitionsPath =
      .ok ⟨[note, ⟨⟨"A", []⟩, "a"⟩], [("[[A]]", "a")]⟩ := by decide +kernel
  have htarget : Writable (Path.parse "o/s.md") noteSheet.tree noteSheet.home :=
    ⟨_, _, rfl, rfl, rfl⟩
  obtain ⟨after, written, hexec, hread, hstands⟩ :=
    failed_line_stands_iff false hsource hdefinitions htarget
  have hplace : StandsBehind [sectionOpening 1, "", "ac"] " [[note]] " written :=
    (hstands ["[[A]]c"] " [[note]] " [] (by decide) (by decide)).1.mpr (by decide)
  exact ⟨htarget, after, written, hexec, hread, hplace⟩

/-- A directive without parameters is also a token, so its line is rewritten although its template
could not be filled; and a call of a directive with the name `page` that fails ends a page. -/
theorem not_failed_line_stands :
    (fails [⟨⟨"A", []⟩, "$\x7bx\x7d"⟩] "[[A]]" = true ∧
      sheetLines "[[A]] = $\x7bx\x7d\n" "[[A]]\n" =
        (.ok 1, .ok [sectionOpening 1, "", "$\x7bx\x7d", "", "</section>"])) ∧
    (fails [⟨⟨"page", [⟨"x", .required⟩]⟩, "<b>$\x7bx\x7d</b>"⟩] "[[page]]" = true ∧
      sheetLines "[[page, x]] = <b>$\x7bx\x7d</b>\n" "[[page]]\n" =
        (.ok 1, .ok [sectionOpening 1, "", "", "</section>", "", sectionOpening 2, "", "",
          "</section>"])) := by
  decide +kernel

end Folio.Build
