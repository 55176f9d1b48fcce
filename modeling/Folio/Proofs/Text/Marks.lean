import Folio.Text.Basic
import Mathlib.Data.List.Infix

/-!
# Marks in texts

A family of marks is *separate* if occurrences of them cannot overlap: no mark is the beginning of
another one, and within a mark none begins. A text can then be cut at its marks in one way only
(`exists_isOf`, `Cut.IsOf.unique`), so it is clear what replacing all of them at once gives
(`Cut.filled`).

The occurrences of a mark are counted. If a text is put together from parts, there are at least
those of the parts (`occurrences_append_ge`), and no others if the parts meet at a mark
(`Separate.occurrences_append`).
-/

namespace Folio.Text

variable {ι : Type}

/-- A text cut at marks: stretches of text, and a mark between neighbours. -/
inductive Cut (ι : Type) where
  | last (stretch : Text)
  | next (stretch : Text) (mark : ι) (rest : Cut ι)
  deriving DecidableEq, Repr

namespace Cut

def stretches : Cut ι → List Text
  | last stretch => [stretch]
  | next stretch _ rest => stretch :: rest.stretches

def marks : Cut ι → List ι
  | last _ => []
  | next _ mark rest => mark :: rest.marks

/-- The stretches as they are, with a value at the place of each mark. -/
def filled (value : ι → Text) : Cut ι → Text
  | last stretch => stretch
  | next stretch mark rest => stretch ++ (value mark ++ rest.filled value)

/-- Put a character in front. -/
def cons (c : Char) : Cut ι → Cut ι
  | last stretch => last (c :: stretch)
  | next stretch mark rest => next (c :: stretch) mark rest

end Cut

/-- No mark stands in the text. -/
def Free (mark : ι → Text) (text : Text) : Prop := ∀ i, ¬ mark i <:+: text

/-- The text is cut at all its marks. -/
structure Cut.IsOf (mark : ι → Text) (cut : Cut ι) (text : Text) : Prop where
  filled : cut.filled mark = text
  free : ∀ stretch ∈ cut.stretches, Free mark stretch

/-- Marks whose occurrences do not overlap. -/
structure Separate (mark : ι → Text) : Prop where
  ne_nil : ∀ i, mark i ≠ []
  eq_of_begins : ∀ {i j}, mark i <+: mark j → i = j
  /-- Behind the first character of a mark, no mark begins. -/
  apart : ∀ {i j} {front back : Text}, mark i = front ++ back → front ≠ [] → back ≠ [] →
    ¬ back <+: mark j ∧ ¬ mark j <+: back

variable {mark : ι → Text}

/-! ## Every text can be cut -/

theorem free_nil (hne : ∀ i, mark i ≠ []) : Free mark [] := by
  intro i hinfix
  exact hne i (List.infix_nil.mp hinfix)

/-- If no mark stands at the beginning of a text, a character can be put in front of a stretch that
the text begins with. -/
theorem Free.cons {c : Char} {stretch text : Text} (hnone : ∀ i, ¬ mark i <+: c :: text)
    (hstretch : stretch <+: text) (h : Free mark stretch) : Free mark (c :: stretch) := by
  intro i hinfix
  rcases List.infix_cons_iff.mp hinfix with hbegins | hwithin
  · exact hnone i (hbegins.trans ((List.prefix_cons_inj c).mpr hstretch))
  · exact h i hwithin

theorem Cut.IsOf.cons {c : Char} {cut : Cut ι} {text : Text}
    (hnone : ∀ i, ¬ mark i <+: c :: text) (h : cut.IsOf mark text) :
    (cut.cons c).IsOf mark (c :: text) := by
  obtain ⟨rfl, hfree⟩ := h
  cases cut with
  | last stretch =>
    refine ⟨rfl, List.forall_mem_singleton.mpr ?_⟩
    exact Free.cons hnone (List.prefix_refl _) (List.forall_mem_singleton.mp hfree)
  | next stretch i rest =>
    obtain ⟨hstretch, hrest⟩ := List.forall_mem_cons.mp hfree
    refine ⟨rfl, List.forall_mem_cons.mpr ⟨?_, hrest⟩⟩
    exact Free.cons hnone (List.prefix_append _ _) hstretch

theorem Cut.IsOf.next_nil (hne : ∀ i, mark i ≠ []) {cut : Cut ι} {text : Text} (i : ι)
    (h : cut.IsOf mark text) : (Cut.next [] i cut).IsOf mark (mark i ++ text) := by
  obtain ⟨rfl, hfree⟩ := h
  exact ⟨rfl, List.forall_mem_cons.mpr ⟨free_nil hne, hfree⟩⟩

/-- Every text can be cut at its marks. The induction is on the length, since a mark covers several
characters. -/
theorem exists_isOf (hne : ∀ i, mark i ≠ []) (text : Text) : ∃ cut : Cut ι, cut.IsOf mark text := by
  generalize hlength : text.length = n
  induction n using Nat.strongRecOn generalizing text with
  | ind n ih =>
    cases text with
    | nil => exact ⟨.last [], rfl, List.forall_mem_singleton.mpr (free_nil hne)⟩
    | cons c rest =>
      by_cases hmark : ∃ i, mark i <+: c :: rest
      · obtain ⟨i, after, hafter⟩ := hmark
        have hpos := List.length_pos_iff.mpr (hne i)
        have hshort : after.length < n := by
          rw [← hlength, ← hafter, List.length_append]
          omega
        obtain ⟨cut, hcut⟩ := ih after.length hshort after rfl
        exact ⟨.next [] i cut, hafter ▸ hcut.next_nil hne i⟩
      · obtain ⟨cut, hcut⟩ := ih rest.length (by simp [← hlength]) rest rfl
        exact ⟨cut.cons c, hcut.cons (not_exists.mp hmark)⟩

/-! ## There is only one cut -/

namespace Separate

/-- A mark at the beginning of a text that holds a mark further on ends before that one, or is
it. -/
theorem prefix_append (h : Separate mark) {i j : ι} {front rest : Text}
    (hbegins : mark i <+: front ++ (mark j ++ rest)) : mark i <+: front ∨ front = [] ∧ i = j := by
  obtain ⟨after, hafter⟩ := hbegins
  rcases List.append_eq_append_iff.mp hafter with ⟨between, rfl, -⟩ | ⟨back, hmark, hback⟩
  · exact .inl (List.prefix_append _ _)
  · by_cases hback' : back = []
    · subst hback'
      rw [List.append_nil] at hmark
      exact .inl (hmark ▸ List.prefix_refl _)
    · have hmeet : back <+: mark j ∨ mark j <+: back :=
        List.prefix_or_prefix_of_prefix (List.prefix_append back after)
          (hback ▸ List.prefix_append (mark j) rest)
      by_cases hfront : front = []
      · subst hfront
        rw [List.nil_append] at hmark
        subst hmark
        exact .inr ⟨rfl, hmeet.elim h.eq_of_begins fun hbegins => (h.eq_of_begins hbegins).symm⟩
      · obtain ⟨hnot, hnot'⟩ := h.apart (j := j) hmark hfront hback'
        exact absurd hmeet (not_or.mpr ⟨hnot, hnot'⟩)

/-- Behind the first character of a mark no mark begins, whatever follows. -/
theorem not_prefix_within (h : Separate mark) (i : ι) {j : ι} {front back : Text} (rest : Text)
    (hmark : mark j = front ++ back) (hfront : front ≠ []) (hback : back ≠ []) :
    ¬ mark i <+: back ++ rest := by
  intro hbegins
  obtain ⟨hnot, hnot'⟩ := h.apart (j := i) hmark hfront hback
  rcases List.prefix_or_prefix_of_prefix hbegins (List.prefix_append back rest) with hlong | hlong
  · exact hnot' hlong
  · exact hnot hlong

/-- Two texts in which the first mark comes behind free stretches agree in the stretch, the mark and
the rest. -/
theorem append_inj (h : Separate mark) {i j : ι} {front other rest after : Text}
    (hother : Free mark other) (hshort : front.length ≤ other.length)
    (heq : front ++ (mark i ++ rest) = other ++ (mark j ++ after)) :
    front = other ∧ i = j ∧ rest = after := by
  obtain ⟨between, rfl⟩ : front <+: other :=
    List.prefix_of_prefix_length_le (heq ▸ List.prefix_append _ _) (List.prefix_append _ _) hshort
  rw [List.append_assoc, List.append_cancel_left_eq] at heq
  rcases h.prefix_append (heq ▸ List.prefix_append _ _) with hbegins | ⟨rfl, rfl⟩
  · exact absurd (hbegins.isInfix.trans (List.suffix_append _ _).isInfix) (hother i)
  · rw [List.nil_append, List.append_cancel_left_eq] at heq
    exact ⟨(List.append_nil _).symm, rfl, heq⟩

end Separate

/-- The first mark of a cut stands in the text. -/
theorem Cut.IsOf.mark_infix {stretch text : Text} {i : ι} {rest : Cut ι}
    (h : (Cut.next stretch i rest).IsOf mark text) : mark i <:+: text := by
  obtain ⟨rfl, -⟩ := h
  exact ⟨stretch, rest.filled mark, List.append_assoc _ _ _⟩

/-- A text is cut at its marks in one way only. -/
theorem Cut.IsOf.unique (hsep : Separate mark) {cut other : Cut ι} {text : Text}
    (h : cut.IsOf mark text) (hother : other.IsOf mark text) : cut = other := by
  induction cut generalizing other text with
  | last stretch =>
    obtain ⟨rfl, hfree⟩ := h
    cases other with
    | last stretch' => exact congrArg Cut.last hother.filled.symm
    | next stretch' j rest' =>
      exact absurd hother.mark_infix (List.forall_mem_singleton.mp hfree j)
  | next stretch i rest ih =>
    obtain ⟨hstretch, hrest⟩ := List.forall_mem_cons.mp h.free
    cases other with
    | last stretch' =>
      obtain ⟨rfl, hfree⟩ := hother
      exact absurd h.mark_infix (List.forall_mem_singleton.mp hfree i)
    | next stretch' j rest' =>
      obtain ⟨hstretch', hrest'⟩ := List.forall_mem_cons.mp hother.free
      have heq : stretch' ++ (mark j ++ rest'.filled mark) =
          stretch ++ (mark i ++ rest.filled mark) :=
        hother.filled.trans h.filled.symm
      obtain ⟨rfl, rfl, hsame⟩ :
          stretch = stretch' ∧ i = j ∧ rest.filled mark = rest'.filled mark := by
        rcases Nat.le_total stretch.length stretch'.length with hle | hle
        · exact hsep.append_inj hstretch' hle heq.symm
        · obtain ⟨hstretches, hmarks, hrests⟩ := hsep.append_inj hstretch hle heq
          exact ⟨hstretches.symm, hmarks.symm, hrests.symm⟩
      rw [ih ⟨hsame, hrest⟩ ⟨rfl, hrest'⟩]

/-! ## Counting -/

/-- The number of places at which a mark stands in a text. -/
def occurrences (mark : Text) : Text → Nat
  | [] => 0
  | c :: rest =>
    if mark.isPrefixOf (c :: rest) then occurrences mark rest + 1 else occurrences mark rest

theorem occurrences_cons_pos {word : Text} {c : Char} {rest : Text} (h : word <+: c :: rest) :
    occurrences word (c :: rest) = occurrences word rest + 1 := by
  rw [occurrences, if_pos (List.isPrefixOf_iff_prefix.mpr h)]

theorem occurrences_cons_neg {word : Text} {c : Char} {rest : Text}
    (h : ¬ word <+: c :: rest) : occurrences word (c :: rest) = occurrences word rest := by
  rw [occurrences, if_neg (by rwa [List.isPrefixOf_iff_prefix])]

theorem occurrences_eq_zero_iff {word : Text} (hne : word ≠ []) {text : Text} :
    occurrences word text = 0 ↔ ¬ word <:+: text := by
  induction text with
  | nil => simp [occurrences, hne]
  | cons c rest ih =>
    rw [List.infix_cons_iff, not_or, ← ih]
    by_cases hbegins : word <+: c :: rest
    · simp [occurrences_cons_pos hbegins, hbegins]
    · simp [occurrences_cons_neg hbegins, hbegins]

/-- Putting a text behind another one keeps the occurrences in both. -/
theorem occurrences_append_ge (word front rest : Text) :
    occurrences word front + occurrences word rest ≤ occurrences word (front ++ rest) := by
  induction front with
  | nil => simp [occurrences]
  | cons c front ih =>
    by_cases hbegins : word <+: c :: front
    · have hlong : word <+: c :: (front ++ rest) := hbegins.trans (List.prefix_append _ rest)
      rw [List.cons_append, occurrences_cons_pos hbegins, occurrences_cons_pos hlong]
      omega
    · rw [List.cons_append, occurrences_cons_neg hbegins]
      refine ih.trans ?_
      by_cases hlong : word <+: c :: (front ++ rest)
      · rw [occurrences_cons_pos hlong]
        omega
      · rw [occurrences_cons_neg hlong]

namespace Separate

theorem occurrences_within (h : Separate mark) (i : ι) {j : ι} {front back : Text} (rest : Text)
    (hmark : mark j = front ++ back) (hfront : front ≠ []) :
    occurrences (mark i) (back ++ rest) = occurrences (mark i) rest := by
  induction back generalizing front with
  | nil => rfl
  | cons c back ih =>
    have hnone := h.not_prefix_within i rest hmark hfront (List.cons_ne_nil _ _)
    have hnext : mark j = (front ++ [c]) ++ back := by rw [hmark, List.append_assoc]; rfl
    rw [List.cons_append] at hnone ⊢
    rw [occurrences_cons_neg hnone]
    exact ih hnext (by simp)

theorem occurrences_mark_append (h : Separate mark) [DecidableEq ι] (i j : ι) (rest : Text) :
    occurrences (mark i) (mark j ++ rest) =
      (if i = j then 1 else 0) + occurrences (mark i) rest := by
  obtain ⟨c, back, hmark⟩ := List.exists_cons_of_ne_nil (h.ne_nil j)
  have hsplit : mark j = [c] ++ back := hmark
  have hwithin := h.occurrences_within i rest hsplit (List.cons_ne_nil _ _)
  rw [hmark, List.cons_append]
  split
  · rename_i hsame
    have hbegins : mark i <+: c :: (back ++ rest) := by
      rw [hsame, ← List.cons_append, ← hmark]
      exact List.prefix_append _ _
    rw [occurrences_cons_pos hbegins, hwithin, Nat.add_comm]
  · rename_i hne
    have hbegins : ¬ mark i <+: c :: (back ++ rest) := by
      intro hbegins
      rw [← List.cons_append, ← hmark, ← List.nil_append (mark j ++ rest)] at hbegins
      rcases h.prefix_append hbegins with hnil | ⟨-, hsame⟩
      · exact h.ne_nil i (List.prefix_nil.mp hnil)
      · exact hne hsame
    rw [occurrences_cons_neg hbegins, hwithin, Nat.zero_add]

/-- Where two parts of a text meet at a mark, no other mark arises. -/
theorem occurrences_append (h : Separate mark) [DecidableEq ι] (i j : ι) (front rest : Text) :
    occurrences (mark i) (front ++ (mark j ++ rest)) =
      occurrences (mark i) front + (if i = j then 1 else 0) + occurrences (mark i) rest := by
  induction front with
  | nil =>
    rw [List.nil_append, h.occurrences_mark_append]
    simp [occurrences]
  | cons c front ih =>
    have hiff : mark i <+: c :: (front ++ (mark j ++ rest)) ↔ mark i <+: c :: front := by
      constructor
      · intro hbegins
        rw [← List.cons_append] at hbegins
        rcases h.prefix_append hbegins with hshort | ⟨hnil, -⟩
        · exact hshort
        · cases hnil
      · intro hbegins
        exact hbegins.trans (List.prefix_append (c :: front) _)
    by_cases hbegins : mark i <+: c :: front
    · rw [List.cons_append, occurrences_cons_pos hbegins,
        occurrences_cons_pos (hiff.mpr hbegins), ih]
      omega
    · rw [List.cons_append, occurrences_cons_neg hbegins,
        occurrences_cons_neg (mt hiff.mp hbegins), ih]

/-- A mark stands in a text as often as the text is cut at it. -/
theorem occurrences_eq_count (h : Separate mark) [DecidableEq ι] (i : ι) {cut : Cut ι} {text : Text}
    (hcut : cut.IsOf mark text) : occurrences (mark i) text = cut.marks.count i := by
  obtain ⟨rfl, hfree⟩ := hcut
  induction cut with
  | last stretch =>
    exact (occurrences_eq_zero_iff (h.ne_nil i)).mpr (List.forall_mem_singleton.mp hfree i)
  | next stretch j rest ih =>
    obtain ⟨hstretch, hrest⟩ := List.forall_mem_cons.mp hfree
    have hnone := (occurrences_eq_zero_iff (h.ne_nil i)).mpr (hstretch i)
    rw [Cut.filled, h.occurrences_append, hnone, ih hrest, Cut.marks, List.count_cons]
    simp only [beq_iff_eq, eq_comm (a := j)]
    omega

/-- A text is cut at a mark exactly if the mark stands somewhere in it. -/
theorem mem_marks_iff (h : Separate mark) [DecidableEq ι] {i : ι} {cut : Cut ι} {text : Text}
    (hcut : cut.IsOf mark text) : i ∈ cut.marks ↔ mark i <:+: text := by
  rw [← List.count_pos_iff, ← h.occurrences_eq_count i hcut, Nat.pos_iff_ne_zero, ne_eq,
    occurrences_eq_zero_iff (h.ne_nil i), not_not]

end Separate

end Folio.Text
