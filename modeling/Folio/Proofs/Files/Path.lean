import Folio.Files.Access
import Folio.Proofs.Files.Tree
import Folio.Proofs.Text.Lines

/-!
# Names and locations in paths

A path that is read from a text has no parts but names and `..`, and following it drops the `..`.
So a settled path leads to a proper location (`settled_of_settle`), and the path of an entry inside
a folder is the path of the folder with one more name (`child_ofLocation`).

* `exists_name_child`: the name that a written name with an ending leads to has that ending.
* `splitName_snoc`: the stem of a name with an ending is what stands before the ending.
-/

namespace Folio

/-! ## Cutting at a separator -/

namespace Text

variable {separator : Char} {text : Text}

theorem splitOn_ne_nil (separator : Char) (text : Text) : splitOn separator text ≠ [] := by
  cases text with
  | nil => exact List.cons_ne_nil _ _
  | cons c rest =>
    rw [splitOn]
    split
    · exact List.cons_ne_nil _ _
    · split <;> exact List.cons_ne_nil _ _

theorem splitOn_of_not_mem (h : separator ∉ text) : splitOn separator text = [text] := by
  induction text with
  | nil => rfl
  | cons c rest ih =>
    rw [List.mem_cons, not_or] at h
    rw [splitOn, ih h.2]
    exact if_neg (Ne.symm h.1)

theorem not_mem_of_mem_splitOn {piece : Text} (h : piece ∈ splitOn separator text) :
    separator ∉ piece := by
  induction text generalizing piece with
  | nil =>
    obtain rfl : piece = [] := by simpa [splitOn] using h
    exact List.not_mem_nil
  | cons c rest ih =>
    rw [splitOn] at h
    split at h
    · rename_i hrest
      exact absurd hrest (splitOn_ne_nil separator rest)
    · rename_i first others hrest
      rw [hrest] at ih
      split at h
      · rcases List.mem_cons.mp h with rfl | hmem
        · exact List.not_mem_nil
        · exact ih hmem
      · rename_i hne
        rcases List.mem_cons.mp h with rfl | hmem
        · have hfirst := ih List.mem_cons_self
          rw [List.mem_cons, not_or]
          exact ⟨Ne.symm hne, hfirst⟩
        · exact ih (List.mem_cons_of_mem _ hmem)

theorem mem_of_mem_splitOn {piece : Text} {c : Char} (h : piece ∈ splitOn separator text)
    (hc : c ∈ piece) : c ∈ text := by
  induction text generalizing piece with
  | nil =>
    obtain rfl : piece = [] := by simpa [splitOn] using h
    cases hc
  | cons d rest ih =>
    rw [splitOn] at h
    split at h
    · rename_i hrest
      exact absurd hrest (splitOn_ne_nil separator rest)
    · rename_i first others hrest
      rw [hrest] at ih
      split at h
      · rcases List.mem_cons.mp h with rfl | hmem
        · cases hc
        · exact List.mem_cons_of_mem _ (ih hmem hc)
      · rcases List.mem_cons.mp h with rfl | hmem
        · rcases List.mem_cons.mp hc with rfl | hc
          · exact List.mem_cons_self
          · exact List.mem_cons_of_mem _ (ih List.mem_cons_self hc)
        · exact List.mem_cons_of_mem _ (ih (List.mem_cons_of_mem _ hmem) hc)

/-- The pieces put together again are the text. -/
theorem join_splitOn (separator : Char) (text : Text) :
    join [separator] (splitOn separator text) = text := by
  induction text with
  | nil => rfl
  | cons c rest ih =>
    rw [splitOn]
    split
    · rename_i hrest
      exact absurd hrest (splitOn_ne_nil separator rest)
    · rename_i first others hrest
      rw [hrest] at ih
      split
      · rename_i hc
        rw [join_cons_cons, ih, hc]
        rfl
      · cases others with
        | nil =>
          rw [join_singleton] at ih ⊢
          rw [ih]
        | cons second others =>
          rw [join_cons_cons] at ih ⊢
          rw [List.cons_append, List.cons_append, ih]

/-- An ending without the separator belongs to the last piece. -/
theorem splitOn_append {ending : Text} (h : separator ∉ ending) (text : Text) :
    ∃ pieces last, splitOn separator (text ++ ending) = pieces ++ [last ++ ending] := by
  induction text with
  | nil => exact ⟨[], [], splitOn_of_not_mem h⟩
  | cons c rest ih =>
    obtain ⟨pieces, last, hrest⟩ := ih
    rw [List.cons_append, splitOn, hrest]
    cases pieces with
    | nil =>
      by_cases hc : c = separator
      · exact ⟨[[]], last, by simp [hc]⟩
      · exact ⟨[], c :: last, by simp [hc]⟩
    | cons piece pieces =>
      by_cases hc : c = separator
      · exact ⟨[] :: piece :: pieces, last, by simp [hc]⟩
      · exact ⟨(c :: piece) :: pieces, last, by simp [hc]⟩

end Text

namespace Path

variable {home location : Location} {path folder : Path} {name text : Text}

/-! ## Paths inside a folder -/

/-- A part that a path can have when it is read from a text. -/
def IsStep (part : Text) : Prop := part = (".." : Text) ∨ IsName part

theorem isStep_of_mem_parse {part : Text} (h : part ∈ (parse text).parts) : IsStep part := by
  obtain ⟨hpiece, hkept⟩ := List.mem_filter.mp h
  simp only [ne_eq, decide_not, Bool.and_eq_true, Bool.not_eq_eq_eq_not, Bool.not_true,
    decide_eq_false_iff_not] at hkept
  by_cases hup : part = (".." : Text)
  · exact .inl hup
  · exact .inr ⟨hkept.1, Text.not_mem_of_mem_splitOn hpiece, hkept.2, hup⟩

theorem filter_name (h : IsName name) :
    [name].filter (fun part => part ≠ [] && part ≠ ("." : Text)) = [name] := by
  refine List.filter_cons_of_pos ?_
  rw [Bool.and_eq_true, decide_eq_true_eq, decide_eq_true_eq]
  exact ⟨h.ne_nil, h.ne_here⟩

theorem parse_name (h : IsName name) : parse name = ⟨.relative, [name]⟩ := by
  have hanchor : anchorOf name = .relative := by
    obtain ⟨c, rest, rfl⟩ := List.exists_cons_of_ne_nil h.ne_nil
    have hc : (c == '/') = false := by
      rw [beq_eq_false_iff_ne]
      rintro rfl
      exact h.noSlash List.mem_cons_self
    rw [anchorOf, List.takeWhile_cons_of_neg (by simp [hc])]
    rfl
  rw [parse, hanchor, Text.splitOn_of_not_mem h.noSlash, filter_name h]

theorem child_name (h : IsName name) : path.child name = ⟨path.anchor, path.parts ++ [name]⟩ := by
  rw [child, parse_name h]
  rfl

theorem child_ofLocation (h : IsName name) :
    (ofLocation location).child name = ofLocation (location ++ [name]) := child_name h

theorem parent_ofLocation : (ofLocation location).parent = ofLocation location.dropLast := rfl

theorem name_ofLocation : (ofLocation (location ++ [name])).name = name := by
  simp [Path.name, ofLocation]

/-! ## Following the parts -/

theorem walk_proper {steps : List Text} (h : ∀ part ∈ steps, IsName part) (start : Location) :
    walk start steps = start ++ steps := by
  unfold walk
  induction steps generalizing start with
  | nil => simp
  | cons step rest ih =>
    have hstep : step ≠ (".." : Text) := (h step List.mem_cons_self).ne_up
    rw [List.foldl_cons, if_neg hstep, ih fun part hpart => h part (List.mem_cons_of_mem _ hpart)]
    simp

/-- Following steps from a proper location leads to a proper location. -/
theorem proper_walk {start : Location} {steps : List Text} (hstart : start.Proper)
    (h : ∀ part ∈ steps, IsStep part) : Location.Proper (walk start steps) := by
  unfold walk
  induction steps generalizing start with
  | nil => exact hstart
  | cons step rest ih =>
    rw [List.foldl_cons]
    refine ih ?_ fun part hpart => h part (List.mem_cons_of_mem _ hpart)
    split
    · intro part hpart
      exact hstart part (List.dropLast_subset _ hpart)
    · rename_i hup
      exact hstart.snoc ((h step List.mem_cons_self).resolve_left hup)

theorem resolve_proper (h : ∀ part ∈ path.parts, IsName part) :
    path.resolve home = (if path.anchor = .relative then home else []) ++ path.parts :=
  walk_proper h _

theorem resolve_ofLocation (h : location.Proper) : (ofLocation location).resolve home = location :=
  walk_proper h []

/-- A path from the root to a proper location. -/
structure Settled (path : Path) : Prop where
  eq : path = ofLocation path.parts
  proper : Location.Proper path.parts

theorem Settled.resolve (h : path.Settled) : path.resolve home = path.parts := by
  rw [h.eq]
  exact resolve_ofLocation h.proper

theorem settled_of_settle (hhome : home.Proper) (hfolder : ∀ part ∈ folder.parts, IsStep part)
    (h : settle home folder text = .ok path) :
    path.Settled ∧ path.parts = (folder.child text).resolve home := by
  unfold settle at h
  split at h
  · cases h
  · obtain rfl := Except.ok.inj h
    refine ⟨⟨rfl, proper_walk ?_ ?_⟩, rfl⟩
    · split
      · exact hhome
      · intro part hpart
        cases hpart
    · intro part hpart
      unfold child append at hpart
      split at hpart
      · rcases List.mem_append.mp hpart with hpart | hpart
        · exact hfolder part hpart
        · exact isStep_of_mem_parse hpart
      · exact isStep_of_mem_parse hpart

/-! ## Endings -/

/-- An ending that can be put behind any text: the result is a name if the text has no slash. -/
structure IsEnding (ending : Text) : Prop where
  noSlash : '/' ∉ ending
  long : 2 < ending.length

theorem IsEnding.isName {ending front : Text} (h : IsEnding ending) (hfront : '/' ∉ front) :
    IsName (front ++ ending) := by
  have hlength : 2 < (front ++ ending).length := by
    have := h.long
    rw [List.length_append]
    omega
  refine ⟨?_, ?_, ?_, ?_⟩
  · intro hnil
    rw [hnil] at hlength
    exact absurd hlength (by decide)
  · rw [List.mem_append, not_or]
    exact ⟨hfront, h.noSlash⟩
  · intro hhere
    rw [hhere] at hlength
    exact absurd hlength (by decide)
  · intro hup
    rw [hup] at hlength
    exact absurd hlength (by decide)

/-- The name that a written name with an ending leads to has that ending, and is the same from
whatever path. -/
theorem exists_name_child {ending : Text} (h : IsEnding ending) (text : Text) :
    ∃ front, '/' ∉ front ∧ ∀ path : Path, (path.child (text ++ ending)).name = front ++ ending := by
  obtain ⟨pieces, last, hpieces⟩ := Text.splitOn_append h.noSlash text
  have hlast : '/' ∉ last := by
    have hmem : last ++ ending ∈ Text.splitOn '/' (text ++ ending) := by simp [hpieces]
    have hnone := Text.not_mem_of_mem_splitOn hmem
    rw [List.mem_append, not_or] at hnone
    exact hnone.1
  have hname := h.isName hlast
  have hparts : ∃ above, (parse (text ++ ending)).parts = above ++ [last ++ ending] := by
    rw [parse, hpieces, List.filter_append, filter_name hname]
    exact ⟨_, rfl⟩
  obtain ⟨above, hparts⟩ := hparts
  refine ⟨last, hlast, fun path => ?_⟩
  unfold child append
  split
  · simp [Path.name, hparts]
  · simp [Path.name, hparts]

theorem mem_of_mem_splitName {c : Char} (h : c ∈ (splitName name).1) : c ∈ name := by
  unfold splitName at h
  dsimp only at h
  split at h
  · exact List.mem_of_mem_take h
  · exact h

/-- The stem of a name with an ending is what stands before the ending. -/
theorem splitName_snoc {front ending : Text} (hfront : front ≠ []) (hending : ending ≠ [])
    (hdot : '.' ∉ ending) : splitName (front ++ '.' :: ending) = (front, '.' :: ending) := by
  have hsuffix : ((front ++ '.' :: ending).reverse.takeWhile (· ≠ '.')).reverse = ending := by
    have hall : ∀ c ∈ ending.reverse, (decide (c ≠ '.')) = true := by
      intro c hc
      rw [decide_eq_true_eq]
      rintro rfl
      exact hdot (List.mem_reverse.mp hc)
    rw [List.reverse_append, List.reverse_cons, List.append_assoc,
      List.takeWhile_append_of_pos hall]
    simp
  unfold splitName
  dsimp only
  rw [hsuffix]
  have hlength : (front ++ '.' :: ending).length - ending.length - 1 = front.length := by
    rw [List.length_append, List.length_cons]
    omega
  rw [hlength, List.take_left]
  simp [hfront, hending]

end Path

end Folio
