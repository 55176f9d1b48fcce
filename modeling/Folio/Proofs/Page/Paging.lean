import Folio.Proofs.Page.Sections

/-!
# Paging keeps the content

The pages of a text are its lines, cut at the page breaks (`pages`). The lines of its sections are
those of the pages, each in a block of its own (`cons_lines_addSections`). From this one equation it
follows that

* the blocks are all that is written, with an empty line between neighbours;
* the tags of sections come in pairs and are numbered from one on;
* the pages can be read back from the sections, unless a line of the text looks like the end of a
  section (`recoverPages_addSections`).

`pages_kept` collects these facts in `KeepsPages`.
-/

namespace Folio.Page

open Text

/-- The pages of a text, without the lines that end them. -/
def pages (text : Text) : List (List Text) := text.lines.splitOnP isPageBreak

/-- The line that ends a section. -/
def sectionClosing : Text := "</section>"

/-- The lines of a page as a section; there is an empty line behind the first and before the
last. -/
def sectionBlock (number : Nat) (page : List Text) : List Text :=
  sectionOpening number :: [] :: (page ++ [[], sectionClosing])

/-- The blocks of pages that are numbered from a number on. -/
def sectionBlocks (number : Nat) (pages : List (List Text)) : List (List Text) :=
  (pages.zipIdx number).map fun (page, number) => sectionBlock number page

/-- Does the line begin or end a section? -/
def isTag (line : Text) : Bool :=
  line == sectionClosing || ("<section class=\"page\" data-page=\"" : Text).isPrefixOf line

/-- The pages in sections: what stands between an opening line and a closing one. -/
def recoverPages (sections : Text) : List (List Text) :=
  (([] :: sections.lines).splitOn sectionClosing).dropLast.map fun block =>
    (block.drop 3).dropLast

/-! ## Cutting lists -/

section Cutting

variable {α : Type}

theorem length_splitOnP (p : α → Bool) (list : List α) :
    (list.splitOnP p).length = list.countP p + 1 := by
  induction list with
  | nil => rw [List.splitOnP_nil]; rfl
  | cons first rest ih =>
    rw [List.splitOnP_cons_eq_if_modifyHead, List.countP_cons]
    split
    · rw [List.length_cons, ih]
    · rw [List.length_modifyHead, ih, Nat.add_zero]

theorem flatten_splitOnP (p : α → Bool) (list : List α) :
    (list.splitOnP p).flatten = list.filter (!p ·) := by
  induction list with
  | nil => rw [List.splitOnP_nil]; rfl
  | cons first rest ih =>
    rw [List.splitOnP_cons_eq_if_modifyHead]
    split
    · rename_i hfirst
      rw [List.flatten_cons, List.nil_append, ih, List.filter_cons_of_neg (by simp [hfirst])]
    · rename_i hfirst
      obtain ⟨part, parts, hparts⟩ := List.exists_cons_of_ne_nil (List.splitOnP_ne_nil p rest)
      rw [hparts] at ih ⊢
      rw [List.filter_cons_of_pos (by simpa using hfirst), ← ih]
      rfl

/-- Parts that are each closed by a separator are found again. -/
theorem splitOn_closed [BEq α] [LawfulBEq α] {separator : α} {parts : List (List α)}
    (h : ∀ part ∈ parts, separator ∉ part) :
    (parts.flatMap (· ++ [separator])).splitOn separator = parts ++ [[]] := by
  unfold List.splitOn
  induction parts with
  | nil => exact List.splitOnP_nil
  | cons part parts ih =>
    obtain ⟨hpart, hparts⟩ := List.forall_mem_cons.mp h
    have hwithin : ∀ a ∈ part, (a == separator) = false := by
      intro a ha
      exact beq_eq_false_iff_ne.mpr fun hsame => hpart (hsame ▸ ha)
    rw [List.flatMap_cons, List.append_assoc, List.singleton_append,
      List.splitOnP_append_cons (p := (· == separator)) _ _ (beq_self_eq_true _),
      List.splitOnP_eq_singleton hwithin, ih hparts]
    rfl

theorem append_intercalate (separator : List α) {parts : List (List α)} (hne : parts ≠ []) :
    separator ++ separator.intercalate parts = parts.flatMap (separator ++ ·) := by
  induction parts with
  | nil => exact absurd rfl hne
  | cons part parts ih =>
    cases parts with
    | nil => simp
    | cons next parts =>
      rw [List.intercalate_cons_cons, List.append_assoc, ih (List.cons_ne_nil _ _)]
      exact (List.append_assoc _ _ _).symm

end Cutting

/-! ## The blocks -/

theorem sectionBlocks_cons (number : Nat) (page : List Text) (pages : List (List Text)) :
    sectionBlocks number (page :: pages) =
      sectionBlock number page :: sectionBlocks (number + 1) pages := by
  unfold sectionBlocks
  rw [List.zipIdx_cons, List.map_cons]

/-- The lines that are written from the beginning of a section on are the blocks of the pages, each
with an empty line before it. -/
theorem cons_sectionLines (number : Nat) (ls : List Text) :
    [] :: sectionOpening number :: [] :: sectionLines number ls =
      (sectionBlocks number (ls.splitOnP isPageBreak)).flatMap ([[]] ++ ·) := by
  induction ls generalizing number with
  | nil =>
    rw [List.splitOnP_nil]
    rfl
  | cons line rest ih =>
    rw [List.splitOnP_cons_eq_if_modifyHead, sectionLines]
    split
    · rw [sectionBlocks_cons, List.flatMap_cons, ← ih]
      rfl
    · obtain ⟨page, others, hpages⟩ :=
        List.exists_cons_of_ne_nil (List.splitOnP_ne_nil isPageBreak rest)
      have hrest := ih number
      rw [hpages, sectionBlocks_cons, List.flatMap_cons] at hrest
      have hlines : sectionLines number rest = page ++ [[], sectionClosing] ++
          (sectionBlocks (number + 1) others).flatMap ([[]] ++ ·) := by
        simpa [sectionBlock] using hrest
      rw [hpages, List.modifyHead_cons, sectionBlocks_cons, List.flatMap_cons, hlines]
      simp [sectionBlock]

theorem cons_lines_addSections (text : Text) :
    [] :: (addSections text).lines = (sectionBlocks 1 (pages text)).flatMap ([[]] ++ ·) :=
  (congrArg ([] :: ·) (lines_addSections text)).trans (cons_sectionLines 1 text.lines)

theorem addSections_eq (text : Text) :
    addSections text =
      unlines ([[]].intercalate (sectionBlocks 1 (pages text))) ++ "\n" := by
  have hne : sectionBlocks 1 (pages text) ≠ [] := by
    obtain ⟨page, others, hpages⟩ :=
      List.exists_cons_of_ne_nil (List.splitOnP_ne_nil isPageBreak text.lines)
    rw [pages, hpages, sectionBlocks_cons]
    exact List.cons_ne_nil _ _
  have hlines := cons_lines_addSections text
  rw [← append_intercalate _ hne, lines_addSections, List.singleton_append] at hlines
  rw [← (List.cons.inj hlines).2]
  rfl

theorem mem_lines_of_mem_pages {text : Text} {page : List Text} (hpage : page ∈ pages text) :
    ∀ line ∈ page, line ∈ text.lines := by
  intro line hline
  have hflat : line ∈ (pages text).flatten := List.mem_flatten.mpr ⟨page, hpage, hline⟩
  rw [pages, flatten_splitOnP] at hflat
  exact (List.mem_filter.mp hflat).1

/-! ## Tags -/

theorem begins_sectionOpening (number : Nat) :
    ("<section class=\"page\" data-page=\"" : Text) <+: sectionOpening number := by
  unfold sectionOpening
  rw [List.append_assoc]
  exact List.prefix_append _ _

theorem isTag_sectionOpening (number : Nat) : isTag (sectionOpening number) = true := by
  rw [isTag, List.isPrefixOf_iff_prefix.mpr (begins_sectionOpening number), Bool.or_true]

theorem sectionOpening_ne_closing (number : Nat) : sectionOpening number ≠ sectionClosing := by
  intro hsame
  exact absurd (hsame ▸ begins_sectionOpening number) (by decide)

theorem filter_isTag_sectionBlock (number : Nat) (page : List Text) :
    (sectionBlock number page).filter isTag =
      sectionOpening number :: (page.filter isTag ++ [sectionClosing]) := by
  have hempty : isTag [] = false := by decide
  have hclosing : isTag sectionClosing = true := by decide
  rw [sectionBlock, List.filter_cons_of_pos (isTag_sectionOpening number),
    List.filter_cons_of_neg (by simp [hempty]), List.filter_append,
    List.filter_cons_of_neg (by simp [hempty]), List.filter_cons_of_pos hclosing, List.filter_nil]

/-- The tags that are written: those of each page between the ones of its section. -/
theorem filter_isTag_addSections (text : Text) :
    (addSections text).lines.filter isTag =
      ((pages text).zipIdx 1).flatMap fun (page, number) =>
        sectionOpening number :: (page.filter isTag ++ [sectionClosing]) := by
  have hempty : isTag [] = false := by decide
  have hlines := congrArg (List.filter isTag) (cons_lines_addSections text)
  rw [List.filter_cons_of_neg (by simp [hempty]), List.filter_flatMap, sectionBlocks,
    List.flatMap_map] at hlines
  rw [hlines]
  refine List.flatMap_congr fun entry _ => ?_
  rw [List.singleton_append, List.filter_cons_of_neg (by simp [hempty]), filter_isTag_sectionBlock]

/-! ## Reading pages back -/

/-- A block up to its last line, with the empty line before it. -/
def openBlock (number : Nat) (page : List Text) : List Text :=
  [] :: sectionOpening number :: [] :: (page ++ [[]])

theorem flatMap_sectionBlocks (number : Nat) (pages : List (List Text)) :
    (sectionBlocks number pages).flatMap ([[]] ++ ·) =
      ((pages.zipIdx number).map fun (page, number) => openBlock number page).flatMap
        (· ++ [sectionClosing]) := by
  rw [sectionBlocks, List.flatMap_map, List.flatMap_map]
  refine List.flatMap_congr fun entry _ => ?_
  simp [sectionBlock, openBlock]

theorem closing_notMem_openBlock (number : Nat) {page : List Text} (h : sectionClosing ∉ page) :
    sectionClosing ∉ openBlock number page := by
  have hempty : sectionClosing ≠ [] := by decide
  have hopening := (sectionOpening_ne_closing number).symm
  simp [openBlock, hempty, hopening, h]

theorem recoverPages_addSections {text : Text} (h : sectionClosing ∉ text.lines) :
    recoverPages (addSections text) = pages text := by
  have hopen : ∀ block ∈ ((pages text).zipIdx 1).map fun (page, number) => openBlock number page,
      sectionClosing ∉ block := by
    intro block hblock
    obtain ⟨⟨page, number⟩, hentry, rfl⟩ := List.mem_map.mp hblock
    have hpage : page ∈ pages text := List.fst_mem_of_mem_zipIdx hentry
    exact closing_notMem_openBlock number fun hmem => h (mem_lines_of_mem_pages hpage _ hmem)
  unfold recoverPages
  rw [cons_lines_addSections, flatMap_sectionBlocks, splitOn_closed hopen, List.dropLast_concat,
    List.map_map]
  conv_rhs => rw [← List.zipIdx_map_fst 1 (pages text)]
  refine List.map_congr_left fun entry _ => ?_
  simp [openBlock]

/-! ## The main result -/

/-- What paging does to the pages of a text. -/
structure KeepsPages (text : Text) : Prop where
  length : (pages text).length = text.lines.countP isPageBreak + 1
  /-- The pages are the lines of the text in their order, but for the page breaks. -/
  content : (pages text).flatten = text.lines.filter (!isPageBreak ·)
  blocks : addSections text =
    unlines ([[]].intercalate (sectionBlocks 1 (pages text))) ++ "\n"
  /-- The lines that look like tags: those of each page stand between the ones of its section. -/
  tags : (addSections text).lines.filter isTag =
    ((pages text).zipIdx 1).flatMap fun (page, number) =>
      sectionOpening number :: (page.filter isTag ++ [sectionClosing])
  /-- If the text has no such lines, sections open and close in turn, numbered without gaps. -/
  balanced : (∀ line ∈ text.lines, isTag line = false) →
    (addSections text).lines.filter isTag =
      (List.range' 1 (pages text).length).flatMap fun number =>
        [sectionOpening number, sectionClosing]
  recovered : sectionClosing ∉ text.lines → recoverPages (addSections text) = pages text
  injective : ∀ other : Text, sectionClosing ∉ text.lines → sectionClosing ∉ other.lines →
    addSections text = addSections other → pages text = pages other

/-- **Paging neither loses nor reorders content.** -/
theorem pages_kept (text : Text) : KeepsPages text where
  length := length_splitOnP isPageBreak text.lines
  content := flatten_splitOnP isPageBreak text.lines
  blocks := addSections_eq text
  tags := filter_isTag_addSections text
  balanced := by
    intro hplain
    rw [filter_isTag_addSections, ← List.zipIdx_map_snd, List.flatMap_map]
    refine List.flatMap_congr ?_
    rintro ⟨page, number⟩ hentry
    have hnone : page.filter isTag = [] := by
      rw [List.filter_eq_nil_iff]
      intro line hline
      rw [hplain line (mem_lines_of_mem_pages (List.fst_mem_of_mem_zipIdx hentry) line hline)]
      exact Bool.false_ne_true
    dsimp only
    rw [hnone, List.nil_append]
  recovered := recoverPages_addSections
  injective := by
    intro other htext hother hsame
    rw [← recoverPages_addSections htext, hsame, recoverPages_addSections hother]

-- A page break at the beginning or at the end, and one behind an empty line.
example : pages "[[page]]\na\n\n [[page]] " = [[], [['a'], []], []] := by decide

end Folio.Page
