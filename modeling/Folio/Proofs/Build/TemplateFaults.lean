import Folio.Proofs.Build.Inputs
import Folio.Proofs.Directive.Filling
import Folio.Proofs.Directive.Signatures

/-!
# Faults of templates

A call gives values to the parameters of its directive and to nothing else (`mem_names_of_resolve`),
whatever it gives and however it is written. So a slot of the template has a value in every call or
in none, and it is the definition alone that decides whether the template can be filled:

* `template_good_or_bad`: a template is good for every call or refused in every call, and then for
  the same slots.
-/

namespace Folio.Build

open Directive

variable {tree : FileTree} {home : Location} {path : Path} {definitions : Definitions}

/-- A call that is accepted gives a value to every parameter, and to nothing else. -/
theorem mem_names_of_resolve {signature : Signature} {call : Call} {bindings : Bindings}
    (hproper : signature.IsProper) (h : signature.resolve call = .ok bindings) (name : Text) :
    name ∈ bindings.names ↔ name ∈ signature.names := by
  have hdistinct : signature.names.Nodup := hproper.parameters.distinct
  obtain ⟨haccepts, rfl⟩ := (resolve_eq_ok_iff hdistinct).mp h
  refine mem_names_layers hdistinct (fun parameter hparameter => ?_) haccepts
  rcases (hproper.parameters.proper parameter hparameter).need with hneed | ⟨default, hneed, -⟩
  · exact .inl (by rw [Parameter.isRequired, hneed]; rfl)
  · exact .inr (by rw [Parameter.default?, hneed]; rfl)

/-- **A template is good for every call or bad for every call.** If all its slots are parameters of
the directive, it is filled in every call that is accepted. Otherwise it is refused in every such
call, and always for the slots that are no parameters. -/
theorem template_good_or_bad (hdefinitions : definitionsAt tree home path = .ok definitions)
    {definition : Definition} (hdefinition : definition ∈ definitions.directives) :
    ((∀ name, HasSlot definition.template name → name ∈ definition.names) ∧
      ∀ call bindings, definition.resolve call = .ok bindings →
        ∃ text, fill definition.template bindings = .ok text) ∨
    ∃ unknown : List Text, unknown ≠ [] ∧ unknown.Pairwise (· < ·) ∧
      (∀ name, name ∈ unknown ↔ HasSlot definition.template name ∧ name ∉ definition.names) ∧
      ∀ call bindings, definition.resolve call = .ok bindings →
        fill definition.template bindings = .error (.unknownSlots unknown) := by
  have hproper := ((declared_of_definitionsAt hdefinitions).declared
    definition hdefinition).isProper
  have hfill (call : Call) (bindings : Bindings) (h : definition.resolve call = .ok bindings) :=
    fill_eq_of_names definition.template (mem_names_of_resolve hproper h)
  by_cases hunknown : unknownSlots definition.template definition.names = []
  · refine .inl ⟨fun name hslot => ?_, fun call bindings h => ?_⟩
    · by_contra hname
      exact absurd (mem_unknownSlots_iff.mpr ⟨hslot, hname⟩) (by simp [hunknown])
    · rw [hfill call bindings h, if_neg (not_not.mpr hunknown)]
      exact ⟨_, rfl⟩
  · refine .inr ⟨_, hunknown, Text.pairwise_sortedSet _, fun name => mem_unknownSlots_iff, ?_⟩
    intro call bindings h
    rw [hfill call bindings h, if_pos hunknown]

/-- A card whose template has a misspelt slot. -/
def misspeltCard : Definition where
  name := "card"
  parameters := [⟨"title", .required⟩, ⟨"width", .optional (some "10")⟩]
  template := "<b $\x7bwidht\x7d>$\x7btitle\x7d</b>"

def cardBook : FileTree :=
  ⟨[(["d"], .file (Utf8.encode
    "[[card, title, width=10]] = <b $\x7bwidht\x7d>$\x7btitle\x7d</b>"))]⟩

theorem template_good_or_bad_misspeltCard :
    definitionsAt cardBook [] (.ofLocation ["d"]) = .ok ⟨[misspeltCard], []⟩ ∧
      misspeltCard.resolve ⟨"card", ["t"], []⟩ = .ok [("title", "t"), ("width", "10")] ∧
      misspeltCard.resolve ⟨"card", ["9"], [("title", "$\x7bwidht\x7d")]⟩ =
        .ok [("title", "$\x7bwidht\x7d"), ("width", "9"), ("width", "10")] ∧
      ∃ unknown,
        fill misspeltCard.template [("title", "t"), ("width", "10")] =
          .error (.unknownSlots unknown) ∧
        fill misspeltCard.template [("title", "$\x7bwidht\x7d"), ("width", "9"), ("width", "10")] =
          .error (.unknownSlots unknown) := by
  have hdefinitions : definitionsAt cardBook [] (.ofLocation ["d"]) = .ok ⟨[misspeltCard], []⟩ := by
    decide +kernel
  have hfirst : misspeltCard.resolve ⟨"card", ["t"], []⟩ =
      .ok [("title", "t"), ("width", "10")] := by
    decide
  have hsecond : misspeltCard.resolve ⟨"card", ["9"], [("title", "$\x7bwidht\x7d")]⟩ =
      .ok [("title", "$\x7bwidht\x7d"), ("width", "9"), ("width", "10")] := by decide
  refine ⟨hdefinitions, hfirst, hsecond, ?_⟩
  rcases template_good_or_bad hdefinitions List.mem_cons_self with ⟨-, hgood⟩ |
    ⟨unknown, -, -, -, hbad⟩
  · have hrefused : fill misspeltCard.template [("title", "t"), ("width", "10")] =
        .error (.unknownSlots ["widht"]) := by decide
    obtain ⟨text, hfill⟩ := hgood _ _ hfirst
    rw [hrefused] at hfill
    cases hfill
  · exact ⟨unknown, hbad _ _ hfirst, hbad _ _ hsecond⟩

end Folio.Build
