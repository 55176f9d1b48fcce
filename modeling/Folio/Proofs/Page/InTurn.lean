import Folio.Proofs.Page.Tokens
import Folio.Proofs.Text.Marks
import Mathlib.Logic.Function.Basic

/-!
# Replacing marks in turn

Marks may be replaced one kind after another. A turn then also finds the marks that the values of
earlier turns hold, or form with the text around them. This is as good as replacing all marks at
once if each mark, when its turn comes, stands only where it stood in the beginning
(`replaceAll_eq_filled`). If every value is longer than its mark, it is not so otherwise
(`foundInTurn_of_length_le`), since marks that come up make the result too long.

No mark comes up if some character of the marks is found neither between the marks nor in the values
(`foundInTurn_of_plain`).
-/

namespace Folio

namespace Text

variable {ι : Type} {mark : ι → Text}

/-! ## One turn -/

theorem replaceFrom_eq_drop (old new : Text) (covered : Nat) (text : Text) :
    replaceFrom old new covered text = replaceFrom old new 0 (text.drop covered) := by
  induction covered generalizing text with
  | zero => rfl
  | succ covered ih =>
    cases text with
    | nil => rfl
    | cons c rest => rw [replaceFrom, ih, List.drop_succ_cons]

theorem replace_append_self {old : Text} (hne : old ≠ []) (new rest : Text) :
    replace (old ++ rest) old new = new ++ replace rest old new := by
  have hbegins : old.isPrefixOf (old ++ rest) = true :=
    List.isPrefixOf_iff_prefix.mpr (List.prefix_append _ _)
  rw [replace_eq_replaceFrom hne, replace_eq_replaceFrom hne]
  obtain ⟨c, others, rfl⟩ := List.exists_cons_of_ne_nil hne
  rw [List.cons_append] at hbegins ⊢
  rw [replaceFrom, if_pos hbegins, replaceFrom_eq_drop, List.length_cons, Nat.add_sub_cancel,
    List.drop_left]

theorem replace_cons_of_not_begins {old : Text} (hne : old ≠ []) (new : Text) {c : Char}
    {rest : Text} (h : ¬ old <+: c :: rest) :
    replace (c :: rest) old new = c :: replace rest old new := by
  rw [replace_eq_replaceFrom hne, replace_eq_replaceFrom hne, replaceFrom,
    if_neg (by rwa [List.isPrefixOf_iff_prefix])]

/-- Where the old text stands, the new one is put. -/
theorem exists_replace_of_infix {old : Text} (hne : old ≠ []) (new : Text) {text : Text}
    (h : old <:+: text) : ∃ front back, replace text old new = front ++ (new ++ back) := by
  induction text with
  | nil => exact absurd (List.infix_nil.mp h) hne
  | cons c text ih =>
    by_cases hbegins : old <+: c :: text
    · obtain ⟨rest, hrest⟩ := hbegins
      exact ⟨[], replace rest old new, by rw [← hrest, replace_append_self hne, List.nil_append]⟩
    · obtain ⟨front, back, hback⟩ := ih ((List.infix_cons_iff.mp h).resolve_left hbegins)
      exact ⟨c :: front, back, by rw [replace_cons_of_not_begins hne new hbegins, hback,
        List.cons_append]⟩

/-- The first occurrence of a mark is replaced, and the text behind it on its own. -/
theorem Separate.replace_append (h : Separate mark) (i : ι) (new : Text) {front : Text}
    (hfree : ¬ mark i <:+: front) (rest : Text) :
    replace (front ++ (mark i ++ rest)) (mark i) new =
      front ++ (new ++ replace rest (mark i) new) := by
  induction front with
  | nil => exact replace_append_self (h.ne_nil i) new rest
  | cons c front ih =>
    have hnone : ¬ mark i <+: c :: (front ++ (mark i ++ rest)) := by
      intro hbegins
      rw [← List.cons_append] at hbegins
      rcases h.prefix_append hbegins with hwithin | ⟨hnil, -⟩
      · exact hfree hwithin.isInfix
      · cases hnil
    have hfree' : ¬ mark i <:+: front := fun hwithin =>
      hfree (hwithin.trans (List.suffix_cons c front).isInfix)
    rw [List.cons_append, replace_cons_of_not_begins (h.ne_nil i) new hnone, ih hfree',
      List.cons_append]

namespace Cut

variable [DecidableEq ι]

/-- A mark that is left in its place stands there. -/
theorem count_le_occurrences (h : Separate mark) {i : ι} {value : ι → Text}
    (hvalue : value i = mark i)
    (cut : Cut ι) : cut.marks.count i ≤ occurrences (mark i) (cut.filled value) := by
  induction cut with
  | last stretch => exact Nat.zero_le _
  | next stretch j rest ih =>
    have hfront := occurrences_append_ge (mark i) stretch (value j ++ rest.filled value)
    have hrest := occurrences_append_ge (mark i) (value j) (rest.filled value)
    have hself : (if j = i then 1 else 0) ≤ occurrences (mark i) (value j) := by
      split
      · rename_i hsame
        have hone := h.occurrences_mark_append i i []
        rw [List.append_nil, if_pos rfl] at hone
        rw [hsame, hvalue, hone]
        exact Nat.le_add_right _ _
      · exact Nat.zero_le _
    simp only [marks, filled, List.count_cons, beq_iff_eq]
    omega

/-- A turn in which the mark stands only in its own places fills these. The text before the cut is
what the turn has already passed without finding the mark. -/
theorem replace_append_filled (h : Separate mark) {i : ι} {value : ι → Text}
    (hvalue : value i = mark i) (new : Text) {cut : Cut ι} (front : Text)
    (hcount : occurrences (mark i) (front ++ cut.filled value) = cut.marks.count i) :
    replace (front ++ cut.filled value) (mark i) new =
      front ++ cut.filled (Function.update value i new) := by
  induction cut generalizing front with
  | last stretch =>
    have habsent := (occurrences_eq_zero_iff (h.ne_nil i)).mp hcount
    exact replace_of_absent new (h.ne_nil i) habsent
  | next stretch j rest ih =>
    simp only [marks, filled, List.count_cons, beq_iff_eq] at hcount ⊢
    by_cases hsame : j = i
    · subst hsame
      rw [if_pos rfl, hvalue, ← List.append_assoc, h.occurrences_append, if_pos rfl] at hcount
      have hkept := count_le_occurrences h hvalue rest
      have habsent := (occurrences_eq_zero_iff (h.ne_nil j)).mp
        (show occurrences (mark j) (front ++ stretch) = 0 by omega)
      have hrest := ih [] (by rw [List.nil_append]; omega)
      rw [List.nil_append] at hrest
      rw [hvalue, ← List.append_assoc, h.replace_append j new habsent, hrest,
        Function.update_self, List.nil_append, List.append_assoc]
    · have hassoc (text : Text) :
          front ++ (stretch ++ (value j ++ text)) = (front ++ (stretch ++ value j)) ++ text := by
        simp only [List.append_assoc]
      rw [if_neg hsame, Nat.add_zero, hassoc] at hcount
      rw [hassoc, ih _ hcount, Function.update_of_ne hsame, hassoc]

theorem replace_filled (h : Separate mark) {i : ι} {value : ι → Text} (hvalue : value i = mark i)
    (new : Text) {cut : Cut ι}
    (hcount : occurrences (mark i) (cut.filled value) = cut.marks.count i) :
    replace (cut.filled value) (mark i) new = cut.filled (Function.update value i new) :=
  replace_append_filled h hvalue new [] hcount

/-- The lengths of a text before and after a kind of marks is filled. -/
theorem length_filled_update (value : ι → Text) (i : ι) (new : Text) (cut : Cut ι) :
    (cut.filled (Function.update value i new)).length + cut.marks.count i * (value i).length =
      (cut.filled value).length + cut.marks.count i * new.length := by
  induction cut with
  | last stretch => simp [filled, marks]
  | next stretch j rest ih =>
    simp only [filled, marks, List.length_append, List.count_cons, beq_iff_eq]
    by_cases hsame : j = i
    · subst hsame
      rw [if_pos rfl, Function.update_self, Nat.succ_mul, Nat.succ_mul]
      omega
    · rw [if_neg hsame, Function.update_of_ne hsame, Nat.add_zero]
      omega

end Cut

/-! ## Any text -/

theorem Separate.single (h : Separate mark) (i : ι) : Separate fun _ : Unit => mark i where
  ne_nil := fun _ => h.ne_nil i
  eq_of_begins := fun _ => rfl
  apart := fun hsplit hfront hback => h.apart hsplit hfront hback

/-- A text is cut at one mark, and replacing the mark fills the cut. -/
theorem Separate.exists_replace_eq (h : Separate mark) (i : ι) (text new : Text) :
    ∃ cut : Cut Unit, cut.IsOf (fun _ => mark i) text ∧
      replace text (mark i) new = cut.filled (fun _ => new) := by
  obtain ⟨cut, hcut⟩ := exists_isOf (h.single i).ne_nil text
  have hcount := (h.single i).occurrences_eq_count () hcut
  rw [← hcut.filled] at hcount
  have hreplace := Cut.replace_filled (h.single i) rfl new hcount
  rw [hcut.filled, Function.update_eq_const_of_subsingleton] at hreplace
  exact ⟨cut, hcut, hreplace⟩

theorem Separate.length_replace (h : Separate mark) (i : ι) (text new : Text) :
    (replace text (mark i) new).length + occurrences (mark i) text * (mark i).length =
      text.length + occurrences (mark i) text * new.length := by
  obtain ⟨cut, hcut, hreplace⟩ := h.exists_replace_eq i text new
  have hcount : occurrences (mark i) text = cut.marks.count () :=
    (h.single i).occurrences_eq_count () hcut
  have hlength := Cut.length_filled_update (fun _ => mark i) () new cut
  rw [Function.update_eq_const_of_subsingleton] at hlength
  rw [hreplace, hcount, ← hcut.filled]
  exact hlength

/-- Replacing a mark leaves the other marks where they are. -/
theorem Separate.occurrences_le_replace [DecidableEq ι] (h : Separate mark) {i j : ι} (hne : i ≠ j)
    (text new : Text) :
    occurrences (mark i) text ≤ occurrences (mark i) (replace text (mark j) new) := by
  obtain ⟨cut, ⟨rfl, -⟩, hreplace⟩ := h.exists_replace_eq j text new
  rw [hreplace]
  clear hreplace
  induction cut with
  | last stretch => exact Nat.le_refl _
  | next stretch _ rest ih =>
    have hfront := occurrences_append_ge (mark i) stretch (new ++ rest.filled fun _ => new)
    have hrest := occurrences_append_ge (mark i) new (rest.filled fun _ => new)
    simp only [Cut.filled]
    rw [h.occurrences_append, if_neg hne]
    omega

end Text

namespace Page

open Text

variable {ι : Type} {mark : ι → Text}

/-- The rules that replace marks by their values, in an order. -/
def rulesFor (mark value : ι → Text) (order : List ι) : Bindings :=
  order.map fun i => (mark i, value i)

/-- In its turn, each mark is found as often as it is counted. -/
def FoundInTurn (mark value : ι → Text) (count : ι → Nat) : List ι → Text → Prop
  | [], _ => True
  | i :: order, text =>
    occurrences (mark i) text = count i ∧
      FoundInTurn mark value count order (text.replace (mark i) (value i))

instance decidableFoundInTurn (mark value : ι → Text) (count : ι → Nat) :
    (order : List ι) → (text : Text) → Decidable (FoundInTurn mark value count order text)
  | [], _ => inferInstanceAs (Decidable True)
  | i :: order, text =>
    have := decidableFoundInTurn mark value count order (text.replace (mark i) (value i))
    inferInstanceAs (Decidable (_ ∧ _))

section Turns

variable [DecidableEq ι] {value : ι → Text} {order : List ι} {cut : Cut ι}

/-- After a turn, the marks of the turns to come are still there. -/
theorem update_eq_mark {filling : ι → Text} {i : ι} (hi : i ∉ order)
    (hfilling : ∀ j ∈ order, filling j = mark j) (new : Text) :
    ∀ j ∈ order, Function.update filling i new j = mark j := by
  intro j hj
  rw [Function.update_of_ne (ne_of_mem_of_not_mem hj hi), hfilling j hj]

theorem ite_mem_cons {i : ι} (hi : i ∉ order) (value filling : ι → Text) :
    (fun j => if j ∈ i :: order then value j else filling j) =
      fun j => if j ∈ order then value j else Function.update filling i (value i) j := by
  funext j
  by_cases hsame : j = i
  · subst hsame
    simp [hi]
  · simp [hsame]

/-- Replacing in turn is replacing at once if no mark comes up. In the induction, the marks of the
turns that are over have their values. -/
theorem replaceAll_eq_filled (h : Separate mark) {filling : ι → Text} (hnodup : order.Nodup)
    (hfilling : ∀ i ∈ order, filling i = mark i)
    (hfound : FoundInTurn mark value (cut.marks.count ·) order (cut.filled filling)) :
    replaceAll (rulesFor mark value order) (cut.filled filling) =
      cut.filled fun i => if i ∈ order then value i else filling i := by
  induction order generalizing filling with
  | nil => simp [rulesFor, replaceAll]
  | cons i order ih =>
    obtain ⟨hi, hnodup⟩ := List.nodup_cons.mp hnodup
    obtain ⟨hself, hfilling⟩ := List.forall_mem_cons.mp hfilling
    obtain ⟨hfirst, hrest⟩ := hfound
    have hturn := Cut.replace_filled h hself (value i) hfirst
    rw [hturn] at hrest
    calc replaceAll (rulesFor mark value (i :: order)) (cut.filled filling)
      _ = replaceAll (rulesFor mark value order)
            ((cut.filled filling).replace (mark i) (value i)) := rfl
      _ = replaceAll (rulesFor mark value order)
            (cut.filled (Function.update filling i (value i))) := by rw [hturn]
      _ = cut.filled fun j =>
            if j ∈ order then value j else Function.update filling i (value i) j :=
          ih hnodup (update_eq_mark hi hfilling _) hrest
      _ = cut.filled fun j => if j ∈ i :: order then value j else filling j := by
          rw [ite_mem_cons hi]

/-- What one turn adds to the length of a text and of another one in which the mark stands not more
often. -/
theorem length_turn {length length' other other' count count' short long : Nat}
    (h : length' + count * short = length + count * long)
    (h' : other' + count' * short = other + count' * long) (hcount : count' ≤ count)
    (hshort : short < long) (hlength : other ≤ length) :
    other' ≤ length' ∧ (length' ≤ other' → length ≤ other ∧ count = count') := by
  obtain ⟨more, rfl⟩ := Nat.exists_eq_add_of_le hcount
  obtain ⟨excess, rfl⟩ := Nat.exists_eq_add_of_lt hshort
  have hmore : more ≤ more * (excess + 1) := Nat.le_mul_of_pos_right _ (Nat.succ_pos _)
  simp only [Nat.add_mul, Nat.mul_add] at h h' hmore
  omega

/-- If every value is longer than its mark and the result of replacing in turn is not longer than
that of replacing at once, no mark has come up. -/
theorem foundInTurn_of_length_le (h : Separate mark) {filling : ι → Text} {text : Text}
    (hnodup : order.Nodup) (hfilling : ∀ i ∈ order, filling i = mark i)
    (hlong : ∀ i ∈ order, (mark i).length < (value i).length)
    (hcount : ∀ i ∈ order, cut.marks.count i ≤ occurrences (mark i) text)
    (hlength : (cut.filled filling).length ≤ text.length)
    (hresult : (replaceAll (rulesFor mark value order) text).length ≤
      (cut.filled fun i => if i ∈ order then value i else filling i).length) :
    text.length ≤ (cut.filled filling).length ∧
      FoundInTurn mark value (cut.marks.count ·) order text := by
  induction order generalizing filling text with
  | nil => exact ⟨by simpa [rulesFor, replaceAll] using hresult, trivial⟩
  | cons i order ih =>
    obtain ⟨hi, hnodup⟩ := List.nodup_cons.mp hnodup
    obtain ⟨hself, hfilling⟩ := List.forall_mem_cons.mp hfilling
    obtain ⟨hlongSelf, hlong⟩ := List.forall_mem_cons.mp hlong
    obtain ⟨hcountSelf, hcount⟩ := List.forall_mem_cons.mp hcount
    have hfilled := Cut.length_filled_update filling i (value i) cut
    rw [hself] at hfilled
    obtain ⟨hnext, hback⟩ :=
      length_turn (h.length_replace i text (value i)) hfilled hcountSelf hlongSelf hlength
    have hcount' : ∀ j ∈ order,
        cut.marks.count j ≤ occurrences (mark j) (text.replace (mark i) (value i)) := by
      intro j hj
      exact (hcount j hj).trans (h.occurrences_le_replace (ne_of_mem_of_not_mem hj hi) text _)
    rw [ite_mem_cons hi] at hresult
    obtain ⟨hle, hrest⟩ :=
      ih hnodup (update_eq_mark hi hfilling _) hlong hcount' hnext hresult
    obtain ⟨hlength', hequal⟩ := hback hle
    exact ⟨hlength', hequal, hrest⟩

/-! ## Plain texts -/

/-- Where a character of the marks is found in marks only, a mark stands only in its own places. -/
theorem occurrences_of_plain (h : Separate mark) {c : Char} (hmark : ∀ i, c ∈ mark i)
    {filling : ι → Text} (hfilling : ∀ i, filling i = mark i ∨ c ∉ filling i) {cut : Cut ι}
    (hstretches : ∀ stretch ∈ cut.stretches, c ∉ stretch) {i : ι} (hself : filling i = mark i)
    (front : Text) (hfront : c ∉ front) :
    occurrences (mark i) (front ++ cut.filled filling) = cut.marks.count i := by
  have hnone {text : Text} (htext : c ∉ text) : occurrences (mark i) text = 0 :=
    (occurrences_eq_zero_iff (h.ne_nil i)).mpr fun hwithin => htext (hwithin.subset (hmark i))
  induction cut generalizing front with
  | last stretch =>
    have hstretch := List.forall_mem_singleton.mp hstretches
    exact hnone (by simp [Cut.filled, hfront, hstretch])
  | next stretch j rest ih =>
    obtain ⟨hstretch, hrest⟩ := List.forall_mem_cons.mp hstretches
    have hplain : c ∉ front ++ stretch := by simp [hfront, hstretch]
    simp only [Cut.filled, Cut.marks, List.count_cons, beq_iff_eq]
    by_cases hj : filling j = mark j
    · have hrest' := ih hrest [] List.not_mem_nil
      rw [List.nil_append] at hrest'
      rw [hj, ← List.append_assoc, h.occurrences_append, hnone hplain, hrest', Nat.zero_add,
        Nat.add_comm]
      simp only [eq_comm]
    · have hvalue := (hfilling j).resolve_left hj
      have hne : j ≠ i := by
        rintro rfl
        exact hj hself
      have hrest' := ih hrest (front ++ (stretch ++ filling j))
        (by simp [hfront, hstretch, hvalue])
      rw [if_neg hne, Nat.add_zero, ← hrest']
      simp only [List.append_assoc]

theorem foundInTurn_of_plain (h : Separate mark) {c : Char} (hmark : ∀ i, c ∈ mark i)
    (hstretches : ∀ stretch ∈ cut.stretches, c ∉ stretch) {filling : ι → Text}
    (hfilling : ∀ i, filling i = mark i ∨ c ∉ filling i) (hnodup : order.Nodup)
    (horder : ∀ i ∈ order, filling i = mark i) (hvalue : ∀ i ∈ order.dropLast, c ∉ value i) :
    FoundInTurn mark value (cut.marks.count ·) order (cut.filled filling) := by
  induction order generalizing filling with
  | nil => trivial
  | cons i order ih =>
    obtain ⟨hi, hnodup⟩ := List.nodup_cons.mp hnodup
    obtain ⟨hself, horder⟩ := List.forall_mem_cons.mp horder
    have hfirst : occurrences (mark i) (cut.filled filling) = cut.marks.count i :=
      occurrences_of_plain h hmark hfilling hstretches hself [] List.not_mem_nil
    refine ⟨hfirst, ?_⟩
    rw [Cut.replace_filled h hself (value i) hfirst]
    cases order with
    | nil => trivial
    | cons next order =>
      obtain ⟨hplain, hvalue⟩ := List.forall_mem_cons.mp hvalue
      refine ih (fun j => ?_) hnodup (update_eq_mark hi horder _) hvalue
      by_cases hsame : j = i
      · subst hsame
        rw [Function.update_self]
        exact .inr hplain
      · rw [Function.update_of_ne hsame]
        exact hfilling j

end Turns

end Page

end Folio
