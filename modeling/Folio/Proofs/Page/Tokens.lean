import Folio.Page.Tokens
import Folio.Proofs.Text.Lines

/-!
# Tokens are replaced line by line

A token holds no line feed, so an occurrence of it lies within one line, and replacing tokens in a
text replaces them in each of its lines (`replaceAll_append_lineFeed`). A line in which no token
stands stays as it is (`replaceAll_of_absent`).
-/

namespace Folio

namespace Text

variable {old : Text}

/-- Whether a text without line feeds stands at the beginning is decided before the first line
feed. -/
theorem prefix_append_lineFeed_iff (hold : '\n' ∉ old) (line rest : Text) :
    old <+: line ++ '\n' :: rest ↔ old <+: line := by
  constructor
  · intro h
    by_cases hlength : old.length ≤ line.length
    · exact List.prefix_of_prefix_length_le h (List.prefix_append _ _) hlength
    · have hline : line ++ ['\n'] <+: old := by
        refine List.prefix_of_prefix_length_le ?_ h ?_
        · exact ⟨rest, by simp⟩
        · rw [List.length_append, List.length_singleton]
          omega
      exact absurd (hline.subset (by simp)) hold
  · intro h
    exact h.trans (List.prefix_append _ _)

theorem replaceFrom_append_lineFeed (new : Text) (hne : old ≠ []) (hold : '\n' ∉ old)
    (line rest : Text) {covered : Nat} (hcovered : covered ≤ line.length) :
    replaceFrom old new covered (line ++ '\n' :: rest) =
      replaceFrom old new covered line ++ '\n' :: replaceFrom old new 0 rest := by
  induction line generalizing covered with
  | nil =>
    obtain rfl : covered = 0 := Nat.le_zero.mp hcovered
    have hprefix : ¬ old <+: '\n' :: rest := fun h =>
      hne (List.prefix_nil.mp ((prefix_append_lineFeed_iff hold [] rest).mp h))
    have hkept : replaceFrom old new 0 ('\n' :: rest) = '\n' :: replaceFrom old new 0 rest := by
      rw [replaceFrom, if_neg (by rwa [List.isPrefixOf_iff_prefix])]
    exact hkept
  | cons c line ih =>
    cases covered with
    | succ covered =>
      rw [List.length_cons] at hcovered
      rw [List.cons_append, replaceFrom, replaceFrom, ih (by omega)]
    | zero =>
      have hiff := prefix_append_lineFeed_iff hold (c :: line) rest
      rw [List.cons_append] at hiff
      rw [List.cons_append, replaceFrom, replaceFrom]
      by_cases hprefix : old <+: c :: line
      · have hlength := hprefix.length_le
        rw [List.length_cons] at hlength
        rw [if_pos (List.isPrefixOf_iff_prefix.mpr (hiff.mpr hprefix)),
          if_pos (List.isPrefixOf_iff_prefix.mpr hprefix), ih (by omega), List.append_assoc]
      · rw [if_neg (by rwa [List.isPrefixOf_iff_prefix, hiff]),
          if_neg (by rwa [List.isPrefixOf_iff_prefix]), ih (Nat.zero_le _), List.cons_append]

/-- Occurrences of a text without line feeds are replaced line by line. -/
theorem replace_append_lineFeed (new : Text) (hne : old ≠ []) (hold : '\n' ∉ old)
    (line rest : Text) :
    replace (line ++ '\n' :: rest) old new =
      replace line old new ++ '\n' :: replace rest old new := by
  obtain ⟨c, others, rfl⟩ := List.exists_cons_of_ne_nil hne
  exact replaceFrom_append_lineFeed new hne hold line rest (Nat.zero_le _)

/-- A text without the one to be replaced stays as it is. -/
theorem replace_of_absent {text : Text} (new : Text) (hne : old ≠ []) (h : ¬ old <:+: text) :
    replace text old new = text := by
  obtain ⟨c, others, rfl⟩ := List.exists_cons_of_ne_nil hne
  unfold replace
  dsimp only
  induction text with
  | nil => rfl
  | cons d rest ih =>
    have hprefix : ¬ c :: others <+: d :: rest := fun hprefix => h hprefix.isInfix
    have hrest : ¬ c :: others <:+: rest := fun hwithin =>
      h (hwithin.trans (List.suffix_cons d rest).isInfix)
    rw [replaceFrom, if_neg (by rwa [List.isPrefixOf_iff_prefix]), ih hrest]

theorem replace_eq_replaceFrom {old : Text} (hne : old ≠ []) (text new : Text) :
    replace text old new = replaceFrom old new 0 text := by
  obtain ⟨c, others, rfl⟩ := List.exists_cons_of_ne_nil hne
  rfl

theorem not_mem_replaceFrom {c : Char} {old new : Text} (hnew : c ∉ new) {covered : Nat}
    {text : Text} (htext : c ∉ text) : c ∉ replaceFrom old new covered text := by
  fun_induction replaceFrom old new covered text with
  | case1 => exact htext
  | case2 covered d rest ih => exact ih fun hmem => htext (List.mem_cons_of_mem _ hmem)
  | case3 d rest hbegins ih =>
    intro hmem
    rcases List.mem_append.mp hmem with hmem | hmem
    · exact hnew hmem
    · exact ih (fun hmem => htext (List.mem_cons_of_mem _ hmem)) hmem
  | case4 d rest hbegins ih =>
    intro hmem
    rcases List.mem_cons.mp hmem with rfl | hmem
    · exact htext List.mem_cons_self
    · exact ih (fun hmem => htext (List.mem_cons_of_mem _ hmem)) hmem

end Text

namespace Page

open Text

/-- Replace the tokens of a text one after another. -/
def replaceAll (rules : Bindings) (text : Text) : Text :=
  rules.foldl (fun text (token, replacement) => text.replace token replacement) text

theorem replaceAll_cons (rule : Text × Text) (rules : Bindings) (text : Text) :
    replaceAll (rule :: rules) text = replaceAll rules (text.replace rule.1 rule.2) := rfl

theorem replaceAll_append (first rest : Bindings) (text : Text) :
    replaceAll (first ++ rest) text = replaceAll rest (replaceAll first text) :=
  List.foldl_append

/-- Blanks at the end of the text go only if there is a rule. -/
theorem substitute_eq (rules : Bindings) (text : Text) :
    substitute rules text =
      if rules = [] then replaceAll rules text else stripRight (replaceAll rules text) := by
  cases rules with
  | nil => rfl
  | cons rule rest => rfl

/-- All tokens are texts within a line. -/
def WithinLines (rules : Bindings) : Prop := ∀ rule ∈ rules, rule.1 ≠ [] ∧ '\n' ∉ rule.1

theorem replaceAll_append_lineFeed {rules : Bindings} (h : WithinLines rules) (line rest : Text) :
    replaceAll rules (line ++ '\n' :: rest) =
      replaceAll rules line ++ '\n' :: replaceAll rules rest := by
  induction rules generalizing line rest with
  | nil => rfl
  | cons rule others ih =>
    obtain ⟨⟨hne, hfeed⟩, hothers⟩ := List.forall_mem_cons.mp h
    rw [replaceAll_cons, replaceAll_cons, replaceAll_cons,
      replace_append_lineFeed rule.2 hne hfeed, ih hothers]

theorem WithinLines.ne_nil {rules : Bindings} (h : WithinLines rules) :
    ∀ rule ∈ rules, rule.1 ≠ [] :=
  fun rule hrule => (h rule hrule).1

theorem replaceAll_of_absent {rules : Bindings} (h : ∀ rule ∈ rules, rule.1 ≠ []) {text : Text}
    (habsent : ∀ rule ∈ rules, ¬ rule.1 <:+: text) : replaceAll rules text = text := by
  induction rules with
  | nil => rfl
  | cons rule others ih =>
    obtain ⟨hne, hothers⟩ := List.forall_mem_cons.mp h
    obtain ⟨hrule, habsent⟩ := List.forall_mem_cons.mp habsent
    rw [replaceAll_cons, replace_of_absent rule.2 hne hrule, ih hothers habsent]

theorem not_mem_replaceAll {c : Char} {rules : Bindings} (hne : ∀ rule ∈ rules, rule.1 ≠ [])
    (hrules : ∀ rule ∈ rules, c ∉ rule.2) {text : Text} (htext : c ∉ text) :
    c ∉ replaceAll rules text := by
  induction rules generalizing text with
  | nil => exact htext
  | cons rule rest ih =>
    obtain ⟨hne, hrest⟩ := List.forall_mem_cons.mp hne
    obtain ⟨hrule, hrules⟩ := List.forall_mem_cons.mp hrules
    rw [replaceAll_cons, replace_eq_replaceFrom hne]
    exact ih hrest hrules (not_mem_replaceFrom hrule htext)

theorem replaceAll_nil {rules : Bindings} (h : WithinLines rules) : replaceAll rules [] = [] :=
  replaceAll_of_absent h.ne_nil fun rule hrule hwithin =>
    h.ne_nil rule hrule (List.infix_nil.mp hwithin)

/-- Lines that are put together are rewritten each on its own. -/
theorem replaceAll_unlines {rules : Bindings} (h : WithinLines rules) (ls : List Text) :
    replaceAll rules (unlines ls) = unlines (ls.map (replaceAll rules)) := by
  induction ls with
  | nil => exact replaceAll_nil h
  | cons line rest ih =>
    cases rest with
    | nil => rw [List.map_singleton, unlines, unlines, join_singleton, join_singleton]
    | cons second others =>
      rw [unlines_cons_cons, replaceAll_append_lineFeed h, ih]
      exact (unlines_cons_cons _ _ _).symm

/-- Closed lines are rewritten each on its own, and what follows them too. -/
theorem replaceAll_closed {rules : Bindings} (h : WithinLines rules) (ls : List Text)
    (rest : Text) :
    replaceAll rules (ls.flatMap (· ++ ['\n']) ++ rest) =
      (ls.map (replaceAll rules)).flatMap (· ++ ['\n']) ++ replaceAll rules rest := by
  induction ls with
  | nil => rfl
  | cons line ls ih =>
    rw [List.flatMap_cons, List.append_assoc, List.append_assoc, List.singleton_append,
      replaceAll_append_lineFeed h, ih, List.map_cons, List.flatMap_cons, List.append_assoc,
      List.append_assoc, List.singleton_append]

end Page

end Folio
