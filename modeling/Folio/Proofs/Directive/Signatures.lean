import Folio.Proofs.Directive.Declared
import Mathlib.Data.List.Nodup

/-!
# Declared signatures are proper

A signature that can be read has parameters with distinct names, each of them required or with a
default, and the required ones come first (`Signature.IsProper`). Each item of the signature
declares one parameter (`exists_of_declare`), which keeps the parameters proper; so every directive
of a definitions file has a proper signature (`isProper_of_parse`, `Declared.isProper`).
-/

namespace Folio.Directive

open Text

/-- The parameter has a name, and a default unless it is required. -/
structure Parameter.IsProper (parameter : Parameter) : Prop where
  ne_nil : parameter.name ≠ []
  trimmed : parameter.name.Trimmed
  noEquals : '=' ∉ parameter.name
  need : parameter.need = .required ∨
    ∃ default, parameter.need = .optional (some default) ∧ default ≠ [] ∧ default.Trimmed

/-- The parameters are proper, have distinct names, and the required ones come first. -/
structure ProperParameters (parameters : List Parameter) : Prop where
  proper : ∀ parameter ∈ parameters, parameter.IsProper
  distinct : (parameters.map (·.name)).Nodup
  requiredFirst : parameters.Pairwise fun first second =>
    second.isRequired = true → first.isRequired = true

structure Signature.IsProper (signature : Signature) : Prop where
  ne_nil : signature.name ≠ []
  trimmed : signature.name.Trimmed
  parameters : ProperParameters signature.parameters

/-! ## One item -/

/-- An item declares one more parameter, with a name that is new, and no required one behind an
optional one. -/
theorem exists_of_declare {signature item : Text} {declared parameters : List Parameter}
    (h : declare signature declared item = .ok parameters) :
    ∃ parameter : Parameter, parameters = declared ++ [parameter] ∧ parameter.IsProper ∧
      parameter.name ∉ declared.map (·.name) ∧
      (parameter.isRequired = true → ∀ other ∈ declared, other.isRequired = true) := by
  unfold declare at h
  split at h
  · rename_i left right hcut
    dsimp only at h
    split_ifs at h with hname hnew hdefault
    refine ⟨_, (Except.ok.inj h).symm, ⟨hname, trimmed_strip left, ?_, ?_⟩, hnew, ?_⟩
    · exact fun hmem => (cutAt_eq_some_iff.mp hcut).2 (mem_of_mem_strip hmem)
    · exact .inr ⟨_, rfl, hdefault, trimmed_strip right⟩
    · intro hrequired
      cases hrequired
  · rename_i hcut
    dsimp only at h
    split_ifs at h with hname hnew hoptional
    refine ⟨_, (Except.ok.inj h).symm, ⟨hname, trimmed_strip item, ?_, .inl rfl⟩, hnew, fun _ => ?_⟩
    · exact fun hmem => cutAt_eq_none_iff.mp hcut (mem_of_mem_strip hmem)
    · simpa using hoptional

theorem ProperParameters.concat {parameters : List Parameter} {parameter : Parameter}
    (h : ProperParameters parameters) (hparameter : parameter.IsProper)
    (hnew : parameter.name ∉ parameters.map (·.name))
    (hfirst : parameter.isRequired = true → ∀ other ∈ parameters, other.isRequired = true) :
    ProperParameters (parameters ++ [parameter]) where
  proper := by
    intro other hother
    rcases List.mem_append.mp hother with hother | hother
    · exact h.proper other hother
    · obtain rfl := List.mem_singleton.mp hother
      exact hparameter
  distinct := by
    rw [List.map_append]
    refine h.distinct.append (List.nodup_singleton _) ?_
    intro name hname hsame
    obtain rfl := List.mem_singleton.mp hsame
    exact hnew hname
  requiredFirst := by
    refine List.pairwise_append.mpr ⟨h.requiredFirst, List.pairwise_singleton _ _, ?_⟩
    intro other hother last hlast hrequired
    obtain rfl := List.mem_singleton.mp hlast
    exact hfirst hrequired other hother

/-! ## Signatures -/

/-- Every item keeps the parameters proper. -/
theorem properParameters_of_foldlM {signature : Text} {rest : List Text}
    {declared parameters : List Parameter} (hdeclared : ProperParameters declared)
    (h : rest.foldlM (declare signature) declared = .ok parameters) :
    ProperParameters parameters := by
  induction rest generalizing declared with
  | nil => exact Except.ok.inj h ▸ hdeclared
  | cons item rest ih =>
    rw [List.foldlM_cons] at h
    obtain ⟨next, hnext, hrest⟩ := bind_eq_ok_iff.mp h
    obtain ⟨parameter, rfl, hproper, hnew, hfirst⟩ := exists_of_declare hnext
    exact ih (hdeclared.concat hproper hnew hfirst) hrest

theorem isProper_of_parse {written : Text} {signature : Signature}
    (h : Signature.parse written = .ok signature) : signature.IsProper := by
  unfold Signature.parse at h
  obtain ⟨inner, -, h⟩ := bind_eq_ok_iff.mp h
  obtain ⟨parts, -, h⟩ := bind_eq_ok_iff.mp h
  cases parts with
  | nil => cases h
  | cons first rest =>
    dsimp only at h
    split at h
    · cases h
    · rename_i hname
      obtain ⟨parameters, hparameters, h⟩ := bind_eq_ok_iff.mp h
      obtain rfl := Except.ok.inj h
      have hnone : ProperParameters [] := ⟨by simp, List.nodup_nil, List.Pairwise.nil⟩
      exact ⟨hname, trimmed_strip first, properParameters_of_foldlM hnone hparameters⟩

theorem Declared.isProper {signature : Signature} (h : Declared signature) :
    signature.IsProper := by
  obtain ⟨written, -, hparse⟩ := h
  exact isProper_of_parse hparse

end Folio.Directive
