import Folio.Directive.Definitions
import Folio.Proofs.Outcome

/-!
# The files that definitions include

A definitions file takes some templates from other files. `Definitions.includes` are the paths that
it names, and reading the definitions depends on these files only: whatever else has changed, they
are read as before (`parse_congr`).
-/

namespace Folio.Directive

/-- What a line outside blocks takes a template from, if it defines something. -/
def templateSource? (line : Text) : Option TemplateSource :=
  if line.strip = [] || line.strip.head? = some '#' then none
  else
    match splitAssignment line.strip with
    | .ok (_, assigned) => some (.parse assigned)
    | .error _ => none

/-- The paths of the files that lines include, from within a block or outside of blocks. -/
def includesFrom : (inBlock : Bool) → List Text → List Text
  | _, [] => []
  | true, line :: rest => includesFrom (line ≠ ("```" : Text)) rest
  | false, line :: rest =>
    match templateSource? line with
    | some (.include path) => path :: includesFrom false rest
    | some .block => includesFrom true rest
    | _ => includesFrom false rest

/-- The paths of the files that a definitions file includes. -/
def Definitions.includes (text : Text) : List Text := includesFrom false text.lines

variable {ε : Type} {load load' : Text → Except (IncludeError ε) Text}

theorem loadTemplate_congr {place written path template : Text}
    (hload : ∀ template, load path = .ok template → load' path = .ok template)
    (h : loadTemplate load place written path = .ok template) :
    loadTemplate load' place written path = .ok template := by
  unfold loadTemplate at h ⊢
  split at h
  · cases h
  · rename_i hpath
    rw [if_neg hpath]
    split at h
    · rename_i found hfound
      rw [hload found hfound]
      exact h
    · cases h
    · cases h

/-- A line asks for the file that it includes, and a block is open behind it exactly if it opens
one. -/
theorem readLine_congr {place line : Text} {definitions : Definitions}
    {result : Definitions × Option OpenBlock}
    (hload : ∀ path, templateSource? line = some (.include path) →
      ∀ template, load path = .ok template → load' path = .ok template)
    (h : readLine load place line definitions = .ok result) :
    readLine load' place line definitions = .ok result ∧
      (result.2.isSome ↔ templateSource? line = some .block) := by
  unfold readLine at h ⊢
  dsimp only at h ⊢
  by_cases hblank : (decide (line.strip = []) || decide (line.strip.head? = some '#')) = true
  · have hnone : templateSource? line = none := if_pos hblank
    rw [if_pos hblank] at h ⊢
    obtain rfl := Except.ok.inj h
    exact ⟨rfl, by simp [hnone]⟩
  · rw [if_neg hblank] at h ⊢
    obtain ⟨⟨written, assigned⟩, hassigned, h⟩ := bind_eq_ok_iff.mp h
    obtain ⟨signature, hsignature, h⟩ := bind_eq_ok_iff.mp h
    have hsource : templateSource? line = some (.parse assigned) := by
      unfold templateSource?
      rw [if_neg hblank, eq_ok_of_mapError hassigned]
    rw [bind_eq_ok_iff]
    rw [hsource] at hload ⊢
    rcases hkind : TemplateSource.parse assigned with template | _ | path
    · rw [hkind] at h
      obtain ⟨added, hadded, h⟩ := bind_eq_ok_iff.mp h
      obtain rfl := Except.ok.inj h
      refine ⟨⟨_, hassigned, bind_eq_ok_iff.mpr ⟨signature, hsignature, ?_⟩⟩, by simp⟩
      rw [hkind]
      exact bind_eq_ok_iff.mpr ⟨added, hadded, rfl⟩
    · rw [hkind] at h
      obtain rfl := Except.ok.inj h
      refine ⟨⟨_, hassigned, bind_eq_ok_iff.mpr ⟨signature, hsignature, ?_⟩⟩, by simp⟩
      rw [hkind]
      rfl
    · rw [hkind] at h
      obtain ⟨template, htemplate, h⟩ := bind_eq_ok_iff.mp h
      obtain ⟨added, hadded, h⟩ := bind_eq_ok_iff.mp h
      obtain rfl := Except.ok.inj h
      refine ⟨⟨_, hassigned, bind_eq_ok_iff.mpr ⟨signature, hsignature, ?_⟩⟩, by simp⟩
      rw [hkind]
      exact bind_eq_ok_iff.mpr ⟨template, loadTemplate_congr (hload path (congrArg some hkind))
        htemplate, bind_eq_ok_iff.mpr ⟨added, hadded, rfl⟩⟩

theorem includesFrom_block (line : Text) (rest : List Text) :
    includesFrom true (line :: rest) = includesFrom (line ≠ ("```" : Text)) rest := rfl

/-- What follows a line is asked for by the lines, whichever of them it is. -/
theorem mem_includesFrom_cons {line path : Text} {rest : List Text} {opened : Bool}
    (hopened : opened = true ↔ templateSource? line = some .block)
    (h : path ∈ includesFrom opened rest) : path ∈ includesFrom false (line :: rest) := by
  rw [includesFrom]
  split
  · rename_i other hsource
    obtain rfl : opened = false := by
      rw [hsource] at hopened
      simpa using hopened
    exact List.mem_cons_of_mem _ h
  · rename_i hsource
    obtain rfl : opened = true := hopened.mpr hsource
    exact h
  · rename_i hnot
    obtain rfl : opened = false := by
      rw [Bool.eq_false_iff]
      exact fun htrue => hnot (hopened.mp htrue)
    exact h

theorem readLines_congr {source : Text} {lines : List Text} {number : Nat}
    {block : Option OpenBlock} {definitions result : Definitions}
    (hload : ∀ path ∈ includesFrom block.isSome lines,
      ∀ template, load path = .ok template → load' path = .ok template)
    (h : readLines load source number block definitions lines = .ok result) :
    readLines load' source number block definitions lines = .ok result := by
  induction lines generalizing number block definitions with
  | nil =>
    cases block with
    | none => exact h
    | some block => cases h
  | cons line rest ih =>
    cases block with
    | some block =>
      rw [readLines] at h ⊢
      split at h
      · rename_i hclosed
        rw [if_pos hclosed]
        obtain ⟨added, hadded, h⟩ := bind_eq_ok_iff.mp h
        refine bind_eq_ok_iff.mpr ⟨added, hadded, ih (fun path hpath => hload path ?_) h⟩
        rw [Option.isSome_some, includesFrom_block, decide_eq_false (not_not_intro hclosed)]
        exact hpath
      · rename_i hopen
        rw [if_neg hopen]
        refine ih (fun path hpath => hload path ?_) h
        rw [Option.isSome_some, includesFrom_block, decide_eq_true hopen]
        exact hpath
    | none =>
      rw [readLines] at h ⊢
      obtain ⟨⟨added, opened⟩, hline, h⟩ := bind_eq_ok_iff.mp h
      have hfirst : ∀ path, templateSource? line = some (.include path) →
          ∀ template, load path = .ok template → load' path = .ok template := by
        intro path hsource
        refine hload path ?_
        simp [includesFrom, hsource]
      obtain ⟨hline', hopened⟩ := readLine_congr hfirst hline
      refine bind_eq_ok_iff.mpr ⟨_, hline', ih (fun path hpath => hload path ?_) h⟩
      exact mem_includesFrom_cons hopened hpath

/-- Definitions are read as before if the files that they include are. -/
theorem parse_congr {source text : Text} {definitions : Definitions}
    (hload : ∀ path ∈ Definitions.includes text,
      ∀ template, load path = .ok template → load' path = .ok template)
    (h : Definitions.parse load source text = .ok definitions) :
    Definitions.parse load' source text = .ok definitions :=
  readLines_congr hload h

end Folio.Directive
