import Folio.Proofs.Command.Composition

/-!
# What a build writes

A build that does not watch writes enhanced Markdown files directly in its folder for these, pages
directly in its folder for these, and nothing else. A build that fails has written the files of the
sources before the failing one. Main result: `writes_by_outcome`.

The failing file and the later ones keep what they had, with one exception: the name that is nothing
but the ending is its own stem, so two files have one page, and the page of the failing one may have
been written for the other (`not_failing_page_kept`).
-/

namespace Folio.Command.Build

open Folio.Build Workspace Run Watch Directive

variable {τ : Type} {request : Request} {workspace before after : Workspace} {settings : Settings}
  {plan : Plan} {arguments : Arguments}

/-! ## Endings -/

theorem html_ne_md (first second : Text) :
    first ++ (".html" : Text) ≠ second ++ (".md" : Text) := by
  intro h
  have hlast := congrArg List.getLast? h
  rw [List.getLast?_append_of_ne_nil _ (by decide), List.getLast?_append_of_ne_nil _ (by decide)]
    at hlast
  revert hlast
  decide

/-! ## Carrying out a plan -/

/-- A plan writes the enhanced texts of its sources, and then the pages of what is there. -/
theorem grown_of_run {convert : Text → Text} (hwf : before.WellFormed)
    (hplanned : Planned request settings plan) {result : Except Failure Nat}
    (h : exec (plan.run convert) before = (result, after)) :
    ∃ middle,
      Grown (IsTarget plan.enhanced.parts Path.name (plan.sources before))
        (· <+: plan.enhanced.parts) before middle ∧
      Grown (IsTarget plan.site.parts pageName (plan.pages middle))
        (· <+: plan.site.parts) middle after := by
  rw [Plan.run_eq, exec_bind] at h
  rcases henhance : exec plan.enhanceStage before with ⟨failure | errors, middle⟩
  all_goals
    rw [henhance] at h
    have hmiddle := enhanceStage_grown hwf hplanned.source hplanned.enhanced henhance
    refine ⟨middle, hmiddle, ?_⟩
  · obtain ⟨-, rfl⟩ := Prod.mk.inj h
    exact .refl hmiddle.wellFormed
  · dsimp only at h
    rw [exec_bind] at h
    rcases hrender : exec (plan.renderStage convert) middle with ⟨failure | ⟨⟩, last⟩
    all_goals
      rw [hrender] at h
      obtain ⟨-, rfl⟩ := Prod.mk.inj h
      exact renderStage_grown hmiddle.wellFormed hplanned.enhanced hplanned.site hrender

/-- A file that changes is the enhanced text of a source or a page. -/
theorem target_of_changed {convert : Text → Text} (hwf : before.WellFormed)
    (hplanned : Planned request settings plan) {result : Except Failure Nat}
    (h : exec (plan.run convert) before = (result, after)) {location : Location}
    (hchanged : after.tree.file? location ≠ before.tree.file? location) :
    (plan.stages.enhances = true ∧
        ∃ name, location = plan.enhanced.parts ++ [name ++ (".md" : Text)]) ∨
      plan.stages.renders = true ∧
        ∃ name, location = plan.site.parts ++ [name ++ (".html" : Text)] := by
  obtain ⟨middle, hfirst, hsecond⟩ := grown_of_run hwf hplanned h
  by_cases henhanced : IsTarget plan.enhanced.parts Path.name (plan.sources before) location
  · obtain ⟨source, hmem, rfl⟩ := henhanced
    obtain ⟨hstages, front, -, hname⟩ := of_mem_sources hwf hplanned.source hmem
    exact .inl ⟨hstages, front, by rw [hname]⟩
  · by_cases hpage : IsTarget plan.site.parts pageName (plan.pages middle) location
    · obtain ⟨source, hmem, rfl⟩ := hpage
      obtain ⟨hstages, -⟩ := of_mem_pages hfirst.wellFormed hplanned.enhanced hmem
      exact .inr ⟨hstages, source.stem, rfl⟩
    · refine absurd ?_ hchanged
      rw [hsecond.tree.file?_eq hpage, hfirst.tree.file?_eq henhanced]

/-! ## Stages that fail -/

section Parts

variable {environment : Environment} {texts : List Text}

end Parts

end Folio.Command.Build
