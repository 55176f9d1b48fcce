import Folio.Text.Basic
import Mathlib.Data.List.Lex
import Mathlib.Data.Char

/-!
# Sorted lists of texts

`sortedSet` keeps the members of a list and puts them in increasing order, each once.
-/

namespace Folio.Text

theorem mem_insertSorted {text other : Text} {texts : List Text} :
    other ∈ insertSorted text texts ↔ other = text ∨ other ∈ texts := by
  induction texts with
  | nil => simp [insertSorted]
  | cons first rest ih =>
    rw [insertSorted]
    split
    · rename_i hsame
      subst hsame
      simp
    · split
      · simp
      · simp only [List.mem_cons, ih]
        tauto

@[simp] theorem mem_sortedSet {text : Text} {texts : List Text} :
    text ∈ sortedSet texts ↔ text ∈ texts := by
  induction texts with
  | nil => simp [sortedSet]
  | cons first rest ih =>
    rw [sortedSet] at ih ⊢
    rw [List.foldr_cons, mem_insertSorted, ih, List.mem_cons]

theorem sortedSet_eq_nil_iff {texts : List Text} : sortedSet texts = [] ↔ texts = [] := by
  simp only [List.eq_nil_iff_forall_not_mem, mem_sortedSet]

/-- Inserting keeps a list increasing. -/
theorem pairwise_insertSorted {text : Text} {texts : List Text} (h : texts.Pairwise (· < ·)) :
    (insertSorted text texts).Pairwise (· < ·) := by
  induction texts with
  | nil => exact List.pairwise_singleton _ _
  | cons first rest ih =>
    obtain ⟨hfirst, hrest⟩ := List.pairwise_cons.mp h
    rw [insertSorted]
    split
    · exact h
    · rename_i hne
      split
      · rename_i hlt
        refine List.pairwise_cons.mpr ⟨?_, h⟩
        intro other hother
        rcases List.mem_cons.mp hother with rfl | hother
        · exact hlt
        · exact lt_trans hlt (hfirst other hother)
      · rename_i hnlt
        have hlt : first < text := lt_of_le_of_ne (not_lt.mp hnlt) (Ne.symm hne)
        refine List.pairwise_cons.mpr ⟨?_, ih hrest⟩
        intro other hother
        rcases mem_insertSorted.mp hother with rfl | hother
        · exact hlt
        · exact hfirst other hother

theorem pairwise_sortedSet (texts : List Text) : (sortedSet texts).Pairwise (· < ·) := by
  induction texts with
  | nil => exact List.Pairwise.nil
  | cons first rest ih => exact pairwise_insertSorted ih

theorem sortedSet_congr {texts others : List Text} (h : ∀ text, text ∈ texts ↔ text ∈ others) :
    sortedSet texts = sortedSet others := by
  have hperm : (sortedSet texts).Perm (sortedSet others) := by
    rw [List.perm_ext_iff_of_nodup ((pairwise_sortedSet _).imp ne_of_lt)
      ((pairwise_sortedSet _).imp ne_of_lt)]
    intro text
    rw [mem_sortedSet, mem_sortedSet, h]
  exact hperm.eq_of_pairwise (fun _ _ _ _ hlt hgt => absurd hgt (lt_asymm hlt))
    (pairwise_sortedSet _) (pairwise_sortedSet _)

end Folio.Text
