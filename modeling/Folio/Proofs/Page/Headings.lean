import Folio.Page.Title
import Folio.Proofs.Text.FirstLine

/-!
# Titles from headings

A heading is a line that consists, when it is trimmed, of hashes, blanks and a content (`Heads`).
The content may be closed by blanks and hashes, which go, but only once (`Closes`). What is left is
never empty and has no blanks at its ends, so every heading gives a title (`titleOf?_eq_none_iff`),
and the title of a text is that of its first heading. Main result: `title_from_first_heading`.
-/

namespace Folio.Page

open Text

/-! ## Headings -/

/-- A run of hashes. -/
structure IsHashes (text : Text) : Prop where
  ne_nil : text ≠ []
  hash : ∀ c ∈ text, c = '#'

/-- A run of blanks. -/
structure IsBlanks (text : Text) : Prop where
  ne_nil : text ≠ []
  blank : ∀ c ∈ text, isBlank c = true

/-- The trimmed line consists of hashes, blanks and something else. -/
def IsHeading (line : Text) : Prop :=
  ∃ hashes blanks rest, strip line = hashes ++ (blanks ++ rest) ∧ IsHashes hashes ∧
    IsBlanks blanks ∧ rest ≠ []

/-- The content of a heading is what follows its hashes and all blanks behind them. -/
inductive Heads (line content : Text) : Prop
  | intro {hashes blanks : Text} (trimmed : strip line = hashes ++ (blanks ++ content))
      (hashes_run : IsHashes hashes) (blanks_run : IsBlanks blanks) (ne_nil : content ≠ [])
      (starts : ∀ c ∈ content.head?, isBlank c = false)

theorem hash_not_blank {c : Char} (h : isBlank c = true) : c ≠ '#' := by
  rintro rfl
  exact absurd h (by decide)

theorem isHeading_iff {line : Text} : IsHeading line ↔ ∃ content, Heads line content := by
  constructor
  · rintro ⟨hashes, blanks, rest, hline, hhashes, hblanks, hrest⟩
    obtain ⟨more, hmore, hblank, hstarts⟩ := exists_stripLeft rest
    -- the trimmed line does not end with a blank, so the rest is not blank
    have hne : stripLeft rest ≠ [] := by
      intro hnil
      obtain ⟨front, last, hlast⟩ := (List.eq_nil_or_concat' rest).resolve_left hrest
      have hend : last ∈ (strip line).getLast? := by
        rw [hline, hlast]
        simp
      have hmem : last ∈ more := by
        rw [hnil, List.append_nil] at hmore
        rw [← hmore, hlast]
        simp
      have hnot := (trimmed_strip line).2 last hend
      rw [hblank last hmem] at hnot
      cases hnot
    have hcontent : strip line = hashes ++ ((blanks ++ more) ++ stripLeft rest) := by
      rw [hline, List.append_assoc, ← hmore]
    have hmany : IsBlanks (blanks ++ more) :=
      ⟨List.append_ne_nil_of_left_ne_nil hblanks.ne_nil more,
        List.forall_mem_append.mpr ⟨hblanks.blank, hblank⟩⟩
    exact ⟨stripLeft rest, hcontent, hhashes, hmany, hne, hstarts⟩
  · rintro ⟨content, ⟨hline, hhashes, hblanks, hne, -⟩⟩
    exact ⟨_, _, content, hline, hhashes, hblanks, hne⟩

theorem Heads.trimmed {line content : Text} (h : Heads line content) : content.Trimmed := by
  obtain ⟨hline, -, -, hne, hstarts⟩ := h
  refine ⟨hstarts, fun c hc => (trimmed_strip line).2 c ?_⟩
  rw [hline, List.getLast?_append_of_ne_nil _ (by simp [hne]), List.getLast?_append_of_ne_nil _ hne]
  exact hc

theorem dropWhile_hashes {hashes rest : Text} (hhashes : ∀ c ∈ hashes, c = '#')
    (hrest : ∀ c ∈ rest.head?, c ≠ '#') : (hashes ++ rest).dropWhile (· == '#') = rest := by
  rw [List.dropWhile_append_of_pos fun c hc => beq_iff_eq.mpr (hhashes c hc)]
  cases rest with
  | nil => rfl
  | cons c rest =>
    have hc : c ≠ '#' := hrest c rfl
    exact List.dropWhile_cons_of_neg (by simpa using hc)

/-- The text behind the hashes of a heading is its content. -/
theorem Heads.headingText?_eq {line content : Text} (h : Heads line content) :
    headingText? line = some content := by
  have htrimmed := h.trimmed
  obtain @⟨hashes, blanks, hline, hhashes, hblanks, hne, hstarts⟩ := h
  obtain ⟨hash, hashes, rfl⟩ := List.exists_cons_of_ne_nil hhashes.ne_nil
  obtain ⟨blank, blanks, rfl⟩ := List.exists_cons_of_ne_nil hblanks.ne_nil
  have hblank : isBlank blank = true := hblanks.blank blank List.mem_cons_self
  have hbehind : (strip line).dropWhile (· == '#') = blank :: (blanks ++ content) := by
    rw [hline]
    refine dropWhile_hashes hhashes.hash ?_
    rintro c ⟨⟩
    exact hash_not_blank hblank
  have hhead : (strip line).head? = some '#' := by
    rw [hline, ← hhashes.hash hash List.mem_cons_self]
    rfl
  have hstrip : strip (blank :: (blanks ++ content)) = content := by
    have hpadded := strip_padded hblanks.blank htrimmed fun c hc => absurd hc List.not_mem_nil
    rwa [List.append_nil] at hpadded
  unfold headingText?
  dsimp only
  rw [hbehind, hhead, hstrip]
  simp [hblank]

/-- Hashes with a blank behind them are a heading, since a trimmed line does not end with a
blank. -/
theorem isHeading_of_headingText? {line content : Text} (h : headingText? line = some content) :
    IsHeading line := by
  unfold headingText? at h
  dsimp only at h
  split at h
  · rename_i hcond
    rw [Bool.and_eq_true, decide_eq_true_eq] at hcond
    obtain ⟨hhead, hbehind⟩ := hcond
    obtain ⟨rest, hrest⟩ := List.head?_eq_some_iff.mp hhead
    have hsplit : strip line =
        (strip line).takeWhile (· == '#') ++ (strip line).dropWhile (· == '#') :=
      List.takeWhile_append_dropWhile.symm
    cases hdrop : (strip line).dropWhile (· == '#') with
    | nil =>
      rw [hdrop] at hbehind
      cases hbehind
    | cons blank others =>
      rw [hdrop] at hsplit hbehind
      have hblank : isBlank blank = true := hbehind
      refine ⟨_, [blank], others, hsplit, ⟨?_, ?_⟩, ⟨by simp, by simpa using hblank⟩, ?_⟩
      · rw [hrest]
        simp
      · intro c hc
        simpa using List.mem_takeWhile_imp hc
      · rintro rfl
        have hlast := (trimmed_strip line).2 blank (by rw [hsplit]; simp)
        rw [hblank] at hlast
        cases hlast
  · cases h

theorem headingText?_eq_some_iff {line content : Text} :
    headingText? line = some content ↔ Heads line content := by
  refine ⟨fun h => ?_, Heads.headingText?_eq⟩
  obtain ⟨found, hfound⟩ := isHeading_iff.mp (isHeading_of_headingText? h)
  rw [hfound.headingText?_eq] at h
  rwa [← Option.some.inj h]

/-! ## Closed headings -/

/-- What can close a heading: a run of blanks and a run of hashes. -/
def IsClosing (text : Text) : Prop :=
  ∃ blanks hashes, text = blanks ++ hashes ∧ IsBlanks blanks ∧ IsHashes hashes

theorem IsClosing.getLast?_eq {text : Text} (h : IsClosing text) : text.getLast? = some '#' := by
  obtain ⟨blanks, hashes, rfl, -, hhashes⟩ := h
  obtain ⟨front, last, rfl⟩ := (List.eq_nil_or_concat' hashes).resolve_left hhashes.ne_nil
  rw [hhashes.hash last (by simp)]
  simp

/-- What is left of a content if its closing goes, where it has one, with all blanks before its
hashes. -/
inductive Closes (content : Text) : Text → Prop
  | unclosed (h : ∀ front closing, IsClosing closing → content ≠ front ++ closing) :
      Closes content content
  | closed {found closing : Text} (split : content = found ++ closing) (h : IsClosing closing)
      (ends : ∀ c ∈ found.getLast?, isBlank c = false) : Closes content found

section Closes

variable {content found : Text}

theorem Closes.trimmed (h : Closes content found) (htrimmed : content.Trimmed)
    (hne : content ≠ []) : found ≠ [] ∧ found.Trimmed := by
  cases h with
  | unclosed _ => exact ⟨hne, htrimmed⟩
  | @closed _ closing hsplit hclosing hends =>
    obtain ⟨blanks, hashes, rfl, hblanks, -⟩ := hclosing
    obtain ⟨blank, blanks, rfl⟩ := List.exists_cons_of_ne_nil hblanks.ne_nil
    cases found with
    | nil =>
      have hstarts := htrimmed.1 blank (by rw [hsplit]; rfl)
      rw [hblanks.blank blank List.mem_cons_self] at hstarts
      cases hstarts
    | cons c found =>
      refine ⟨List.cons_ne_nil c found, fun d hd => htrimmed.1 d ?_, hends⟩
      rw [hsplit]
      exact hd

theorem exists_closes (content : Text) : ∃ found, Closes content found := by
  by_cases h : ∃ front closing, IsClosing closing ∧ content = front ++ closing
  · obtain ⟨front, closing, ⟨blanks, hashes, rfl, hblanks, hhashes⟩, rfl⟩ := h
    -- blanks at the end of the front belong to the closing
    obtain ⟨more, hfront, hmore⟩ := exists_stripRight front
    refine ⟨stripRight front, .closed ?_ ⟨more ++ blanks, hashes, rfl, ⟨?_, ?_⟩, hhashes⟩ ?_⟩
    · conv_lhs => rw [hfront]
      simp only [List.append_assoc]
    · exact List.append_ne_nil_of_right_ne_nil more hblanks.ne_nil
    · exact List.forall_mem_append.mpr ⟨hmore, hblanks.blank⟩
    · intro c hc
      obtain ⟨-, -, -, hstarts⟩ := exists_stripLeft front.reverse
      exact hstarts c (by simpa [stripRight, stripLeft] using hc)
  · refine ⟨content, .unclosed fun front closing hclosing hsplit => ?_⟩
    exact h ⟨front, closing, hclosing, hsplit⟩

theorem dropHashes_append {body hashes : Text} (hbody : ∀ c ∈ body.getLast?, c ≠ '#')
    (hhashes : ∀ c ∈ hashes, c = '#') :
    ((body ++ hashes).reverse.dropWhile (· == '#')).reverse = body := by
  rw [List.reverse_append, dropWhile_hashes (by simpa using hhashes) (by simpa using hbody),
    List.reverse_reverse]

/-- A content that is not closed stays as it is. -/
theorem dropClosingHashes_of_unclosed (htrimmed : content.Trimmed)
    (h : ∀ front closing, IsClosing closing → content ≠ front ++ closing) :
    dropClosingHashes content = content := by
  have hsplit : content = (content.reverse.dropWhile (· == '#')).reverse ++
      (content.reverse.takeWhile (· == '#')).reverse := by
    rw [← List.reverse_append, List.takeWhile_append_dropWhile, List.reverse_reverse]
  have hhashes : ∀ c ∈ (content.reverse.takeWhile (· == '#')).reverse, c = '#' := by
    intro c hc
    simpa using List.mem_takeWhile_imp (List.mem_reverse.mp hc)
  unfold dropClosingHashes
  dsimp only
  generalize (content.reverse.dropWhile (· == '#')).reverse = body at hsplit
  generalize (content.reverse.takeWhile (· == '#')).reverse = hashes at hsplit hhashes
  refine if_neg fun hblank => ?_
  obtain ⟨blank, hlast, hisBlank⟩ := (Option.any_eq_true _ _).mp hblank
  obtain ⟨front, rfl⟩ := List.getLast?_eq_some_iff.mp hlast
  by_cases hnone : hashes = []
  · have hends := htrimmed.2 blank (by rw [hsplit, hnone]; simp)
    rw [hisBlank] at hends
    cases hends
  · refine h front ([blank] ++ hashes) ⟨[blank], hashes, rfl, ⟨by simp, ?_⟩, hnone, hhashes⟩ ?_
    · simpa using hisBlank
    · rw [hsplit, List.append_assoc]

/-- Trimming what is left without the closing hashes gives what a content is closed to. -/
theorem Closes.strip_eq (h : Closes content found) (htrimmed : content.Trimmed)
    (hne : content ≠ []) : strip (dropClosingHashes content) = found := by
  obtain ⟨-, hfound⟩ := h.trimmed htrimmed hne
  cases h with
  | unclosed hopen => rw [dropClosingHashes_of_unclosed htrimmed hopen, htrimmed.strip_eq]
  | @closed _ closing hsplit hclosing hends =>
    obtain ⟨blanks, hashes, rfl, hblanks, hhashes⟩ := hclosing
    obtain ⟨front, blank, rfl⟩ := (List.eq_nil_or_concat' blanks).resolve_left hblanks.ne_nil
    have hblank : isBlank blank = true := hblanks.blank blank (by simp)
    have hbody : ((content.reverse).dropWhile (· == '#')).reverse =
        found ++ (front ++ [blank]) := by
      rw [hsplit, ← List.append_assoc]
      refine dropHashes_append ?_ hhashes.hash
      intro c hc
      obtain rfl : blank = c := by simpa using hc
      exact hash_not_blank hblank
    have hpadded : strip (found ++ (front ++ [blank])) = found :=
      strip_padded (fun c hc => absurd hc List.not_mem_nil) hfound hblanks.blank
    unfold dropClosingHashes
    rw [hbody]
    dsimp only
    rw [if_pos (by simp [hblank]), hpadded, hfound.strip_eq]

end Closes

theorem Heads.ne_nil {line content : Text} (h : Heads line content) : content ≠ [] := by
  obtain ⟨-, -, -, hne, -⟩ := h
  exact hne

/-- What a heading gives as a title is never empty. -/
theorem Heads.titleOf?_eq {line content found : Text} (h : Heads line content)
    (hcloses : Closes content found) : titleOf? line = some found := by
  unfold titleOf?
  rw [h.headingText?_eq, Option.bind_some]
  dsimp only
  rw [hcloses.strip_eq h.trimmed h.ne_nil, if_neg (hcloses.trimmed h.trimmed h.ne_nil).1]

/-- The headings are the lines that give a title. -/
theorem titleOf?_eq_none_iff {line : Text} : titleOf? line = none ↔ ¬ IsHeading line := by
  constructor
  · intro hnone hheading
    obtain ⟨content, hheads⟩ := isHeading_iff.mp hheading
    obtain ⟨found, hcloses⟩ := exists_closes content
    rw [hheads.titleOf?_eq hcloses] at hnone
    cases hnone
  · intro hnot
    unfold titleOf?
    cases hcontent : headingText? line with
    | none => rfl
    | some content =>
      exact absurd (isHeading_iff.mpr ⟨content, headingText?_eq_some_iff.mp hcontent⟩) hnot

instance (line : Text) : Decidable (IsHeading line) :=
  decidable_of_iff (¬ titleOf? line = none) ((not_congr titleOf?_eq_none_iff).trans not_not)

/-! ## The first heading -/

theorem title_eq_default {text : Text} (h : ∀ line ∈ text.lines, ¬ IsHeading line)
    (default : Text) :
    title default text = default := by
  unfold title
  rw [List.findSome?_eq_none_iff.mpr fun line hline => titleOf?_eq_none_iff.mpr (h line hline)]
  rfl

/-- Lines that are no headings are passed over. -/
theorem title_eq_of_first {text line content found : Text} {before after : List Text}
    (hlines : text.lines = before ++ line :: after) (hbefore : ∀ other ∈ before, ¬ IsHeading other)
    (hheads : Heads line content) (hcloses : Closes content found) (default : Text) :
    title default text = found := by
  have hnone : before.findSome? titleOf? = none :=
    List.findSome?_eq_none_iff.mpr fun other hother =>
      titleOf?_eq_none_iff.mpr (hbefore other hother)
  unfold title
  rw [hlines, List.findSome?_append, hnone, Option.none_or,
    List.findSome?_cons_of_isSome (by rw [hheads.titleOf?_eq hcloses]; rfl),
    hheads.titleOf?_eq hcloses]
  rfl

/-- Every default is returned exactly if there is no heading. -/
theorem title_eq_default_iff {text : Text} :
    (∀ default, title default text = default) ↔ ∀ line ∈ text.lines, ¬ IsHeading line := by
  refine ⟨fun h line hline hheading => ?_, title_eq_default⟩
  cases hfind : text.lines.findSome? titleOf? with
  | none =>
    have hnone := List.findSome?_eq_none_iff.mp hfind line hline
    exact titleOf?_eq_none_iff.mp hnone hheading
  | some found =>
    have hlonger := h (found ++ ['#'])
    unfold title at hlonger
    rw [hfind] at hlonger
    simp at hlonger

/-! ## Written headings -/

/-- A line with hashes, a space, a heading, a space and perhaps more hashes. -/
def headingLine (opening : Nat) (heading : Text) (closing : Nat) : Text :=
  List.replicate opening '#' ++ ' ' :: (heading ++ ' ' :: List.replicate closing '#')

section Written

variable {heading : Text} {opening : Nat}

theorem isHashes_replicate {count : Nat} (h : 1 ≤ count) : IsHashes (List.replicate count '#') where
  ne_nil := by simp [Nat.ne_of_gt h]
  hash := fun _ hc => (List.mem_replicate.mp hc).2

theorem isBlanks_space : IsBlanks [' '] where
  ne_nil := List.cons_ne_nil _ _
  blank := List.forall_mem_singleton.mpr rfl

theorem trimmed_append {text other : Text} (hne : text ≠ [])
    (hstarts : ∀ c ∈ text.head?, isBlank c = false) (hother : other ≠ [])
    (hends : ∀ c ∈ other.getLast?, isBlank c = false) : Trimmed (text ++ other) := by
  refine ⟨fun c hc => hstarts c ?_, fun c hc => hends c ?_⟩
  · rwa [List.head?_append_of_ne_nil _ hne] at hc
  · rwa [List.getLast?_append_of_ne_nil _ hother] at hc

theorem IsHashes.not_blank {hashes : Text} (h : IsHashes hashes) {c : Char} (hc : c ∈ hashes) :
    isBlank c = false := by
  rw [h.hash c hc]
  rfl

/-- Hashes, a space and a trimmed content are a heading, whatever blanks follow. -/
theorem heads_opened {content blanks : Text} (hopening : 1 ≤ opening) (hne : content ≠ [])
    (htrimmed : content.Trimmed) (hblanks : ∀ c ∈ blanks, isBlank c = true) :
    Heads (List.replicate opening '#' ++ ' ' :: (content ++ blanks)) content := by
  have hhashes := isHashes_replicate hopening
  have hwhole : Trimmed (List.replicate opening '#' ++ ' ' :: content) := by
    refine trimmed_append hhashes.ne_nil (fun c hc => hhashes.not_blank (List.mem_of_mem_head? hc))
      (List.cons_ne_nil _ _) ?_
    rw [List.getLast?_cons_of_ne_nil hne]
    exact htrimmed.2
  have hstrip : strip (List.replicate opening '#' ++ ' ' :: (content ++ blanks)) =
      List.replicate opening '#' ++ ([' '] ++ content) := by
    have hpadded := strip_padded (fun c hc => absurd hc List.not_mem_nil) hwhole hblanks
    rwa [List.nil_append, List.append_assoc, List.cons_append] at hpadded
  exact ⟨hstrip, hhashes, isBlanks_space, hne, htrimmed.1⟩

/-- A written heading, closed or not, is read back. -/
theorem heads_headingLine (hopening : 1 ≤ opening) (hne : heading ≠ []) (htrimmed : heading.Trimmed)
    (hunclosed : ∀ front run, IsClosing run → heading ≠ front ++ run) (closing : Nat) :
    ∃ content, Heads (headingLine opening heading closing) content ∧ Closes content heading := by
  cases closing with
  | zero =>
    exact ⟨heading, heads_opened hopening hne htrimmed isBlanks_space.blank, .unclosed hunclosed⟩
  | succ closing =>
    have hhashes := isHashes_replicate (Nat.le_add_left 1 closing)
    have hclosing : IsClosing (' ' :: List.replicate (closing + 1) '#') :=
      ⟨[' '], _, rfl, isBlanks_space, hhashes⟩
    have hcontent : Trimmed (heading ++ ' ' :: List.replicate (closing + 1) '#') := by
      refine trimmed_append hne htrimmed.1 (List.cons_ne_nil _ _) fun c hc => ?_
      rw [List.getLast?_cons_of_ne_nil hhashes.ne_nil] at hc
      exact hhashes.not_blank (List.mem_of_mem_getLast? hc)
    have hheads := heads_opened hopening (List.append_ne_nil_of_left_ne_nil hne _) hcontent
      fun c (hc : c ∈ []) => absurd hc List.not_mem_nil
    rw [List.append_nil] at hheads
    exact ⟨_, hheads, .closed rfl hclosing htrimmed.2⟩

end Written

/-! ## The main result -/

/-- **The title is that of the first heading**, or the default if there is none. A heading gives
what is behind its hashes and blanks, but for one closing, and this is never empty and has no blanks
at its ends. So a heading that is written, closed or not, is the title if no heading stands before
it. -/
theorem title_from_first_heading (text : Text) :
    ((∀ default, title default text = default) ↔ ∀ line ∈ text.lines, ¬ IsHeading line) ∧
      (∀ before line after, text.lines = before ++ line :: after →
        (∀ other ∈ before, ¬ IsHeading other) → IsHeading line →
          (∃ content found, Heads line content ∧ Closes content found) ∧
            ∀ content found, Heads line content → Closes content found →
              found ≠ [] ∧ found.Trimmed ∧ ∀ default, title default text = found) ∧
      ∀ before opening heading closing after,
        text.lines = before ++ headingLine opening heading closing :: after →
        (∀ other ∈ before, ¬ IsHeading other) → 1 ≤ opening → heading ≠ [] → heading.Trimmed →
        (∀ front run, IsClosing run → heading ≠ front ++ run) →
          ∀ default, title default text = heading := by
  refine ⟨title_eq_default_iff, ?_, ?_⟩
  · intro before line after hlines hbefore hheading
    obtain ⟨content, hheads⟩ := isHeading_iff.mp hheading
    obtain ⟨found, hcloses⟩ := exists_closes content
    refine ⟨⟨content, found, hheads, hcloses⟩, fun content found hheads hcloses => ?_⟩
    obtain ⟨hne, htrimmed⟩ := hcloses.trimmed hheads.trimmed hheads.ne_nil
    exact ⟨hne, htrimmed, title_eq_of_first hlines hbefore hheads hcloses⟩
  · intro before opening heading closing after hlines hbefore hopening hne htrimmed hunclosed
    obtain ⟨content, hheads, hcloses⟩ :=
      heads_headingLine hopening hne htrimmed hunclosed closing
    exact title_eq_of_first hlines hbefore hheads hcloses

/-- The first line has no blank behind its hash, so the second one gives the title. -/
theorem title_from_first_heading_notes :
    title "page" "#a\n## A #b ###\n# C" = ("A #b" : Text) := by
  refine (title_from_first_heading _).2.2 ["#a"] 2 "A #b" 3 ["# C"] (by decide) (by decide)
    (by decide) (by decide) (by decide) ?_ "page"
  intro front run hrun hsplit
  have hlast : ("A #b" : Text).getLast? = some '#' := by
    rw [hsplit, List.getLast?_append, hrun.getLast?_eq]
    rfl
  exact absurd hlast (by decide)

-- only the last run of hashes goes, and a heading may consist of hashes
example : title "page" "## a # ##" = ("a #" : Text) ∧ title "page" "# #" = ("#" : Text) := by decide

end Folio.Page
