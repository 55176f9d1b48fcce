import Folio.Proofs.Build.Openings
import Folio.Proofs.Command.Composition
import Folio.Proofs.Command.Writes

/-!
# What a build does to its sources

A build leaves the Markdown files in the folder of its sources as they are, unless it enhances them
into that very folder. Whether two folders are the same is not checked: then every source that is
enhanced is overwritten, and an enhanced text is never the text of its source. Main result:
`sources_kept_or_overwritten`.
-/

namespace Folio.Command.Build

open Folio.Build Workspace Run Watch Directive

variable {τ : Type} {request : Request} {workspace before after : Workspace} {settings : Settings}
  {plan : Plan} {arguments : Arguments}

/-! ## Watching builds -/

theorem tree_carryOut (plan : Plan) (convert : Text → Text) (workspace : Workspace) :
    (exec (carryOut plan convert) workspace).2.tree =
      (exec (plan.run convert) workspace).2.tree := by
  unfold carryOut
  rw [exec_bind]
  rcases exec (plan.run convert) workspace with ⟨failure | _ | errors, after⟩ <;> rfl

theorem tree_rebuild (plan : Plan) (convert : Text → Text) (workspace : Workspace) :
    (exec (rebuild plan convert) workspace).2.tree =
      (exec (plan.run convert) workspace).2.tree := by
  rw [← tree_carryOut]
  unfold rebuild
  cases plan.mode with
  | strict => rw [exec_discard]
  | report embed =>
    dsimp only
    rw [exec_tryCatch, exec_discard]
    rcases exec (carryOut plan convert) workspace with ⟨failure | errors, after⟩ <;> rfl

/-- Whether a build watches makes no difference to what it does first. -/
theorem tree_execute (environment : Environment) (start : Debounce τ) (watching : Bool)
    (plan : Plan) (workspace : Workspace) :
    (exec (execute environment start watching plan) workspace).2.tree =
      (exec (plan.run environment.convert) workspace).2.tree := by
  rw [← tree_carryOut]
  unfold execute
  rw [exec_bind, exec_tryCatch, exec_map]
  rcases exec (carryOut plan environment.convert) workspace with ⟨failure | errors, after⟩
  · rfl
  · cases watching with
    | false => rfl
    | true =>
      unfold watch
      rcases environment.watching <;> rfl

/-- The job of a watching build is to carry out its plan again. -/
theorem job_of_execute {environment : Environment} {start : Debounce τ} {watching : Bool}
    {watcher : Watcher τ}
    (h : (exec (execute environment start watching plan) workspace).1 = .ok (.watching watcher)) :
    watcher.job = rebuild plan environment.convert := by
  revert h
  unfold execute
  rw [exec_bind, exec_tryCatch, exec_map]
  rcases exec (carryOut plan environment.convert) workspace with ⟨failure | errors, after⟩
  · intro h
    cases h
  · cases watching with
    | false =>
      intro h
      cases h
    | true =>
      unfold watch
      rcases environment.watching <;> intro h <;> cases h
      rfl

theorem tree_send [Sub τ] [LT τ] [DecidableLT τ] (watcher : Watcher τ) (event : Event τ)
    (workspace : Workspace) :
    (watcher.send event workspace).2.2.tree = workspace.tree ∨
      (watcher.send event workspace).2.2.tree = (exec watcher.job workspace).2.tree := by
  unfold Watcher.send
  split
  · split
    · exact .inl rfl
    · right
      show _ = (watcher.job.run.run workspace).2.tree
      rcases watcher.job.run.run workspace with ⟨failure | ⟨⟩, after⟩ <;> rfl
  · exact .inl rfl

/-! ## Sources that are kept -/

/-- The Markdown files in the folder are as before. -/
def MarkdownKept (folder : Location) (before after : FileTree) : Prop :=
  ∀ name, after.file? (folder ++ [name ++ (".md" : Text)]) =
    before.file? (folder ++ [name ++ (".md" : Text)])

/-- The build enhances its sources into the folder in which they are. -/
def Overwrites (plan : Plan) : Prop :=
  plan.stages.enhances = true ∧ plan.enhanced.parts = plan.source.parts

instance (plan : Plan) : Decidable (Overwrites plan) := inferInstanceAs (Decidable (_ ∧ _))

theorem markdownKept_of_run {convert : Text → Text} (hwf : before.WellFormed)
    (hplanned : Planned request settings plan) (hapart : ¬ Overwrites plan) :
    MarkdownKept plan.source.parts before.tree (exec (plan.run convert) before).2.tree := by
  intro name
  by_contra hchanged
  rcases target_of_changed hwf hplanned (Prod.eta _).symm hchanged with
    ⟨hstages, front, hsame⟩ | ⟨-, front, hsame⟩
  · exact hapart ⟨hstages, (List.append_inj' hsame rfl).1.symm⟩
  · exact html_ne_md front name (by simpa using (List.append_inj' hsame rfl).2.symm)

/-! ## Sources that are overwritten -/

/-- After the first stage of a build that overwrites its sources, each of them has changed. -/
theorem changed_of_overwrites (hwf : before.WellFormed) (hplanned : Planned request settings plan)
    (hsame : plan.enhanced.parts = plan.source.parts) {errors : Nat}
    (h : exec plan.enhanceStage before = (.ok errors, after)) {name : Text}
    (hmem : Path.ofLocation (plan.source.parts ++ [name]) ∈ plan.sources before) :
    after.tree.file? (plan.source.parts ++ [name]) ≠
      before.tree.file? (plan.source.parts ++ [name]) := by
  have hswept := swept_enhanceStage hwf hplanned.enhanced h
  have hordered : (plan.sources before).Pairwise (·.name < ·.name) :=
    pairwise_sources hplanned.source
  obtain ⟨-, front, hfront, hname⟩ := of_mem_sources hwf hplanned.source hmem
  rw [Path.name_ofLocation] at hname
  have hproper : Location.Proper (plan.source.parts ++ [name]) :=
    hplanned.source.proper.snoc (hname ▸ isEnding_md.isName hfront)
  cases hswept with
  | swept hprepared hexec =>
    obtain ⟨first, rest, hsources⟩ := List.append_of_mem hmem
    obtain ⟨middle, text, -, hgrown,
      ⟨written, definitions, expansion, hread, hdefinitions, henhance, rfl⟩, hwritten, -⟩ :=
      enhanced_of_forM hwf hplanned.source hplanned.enhanced hsources hprepared.wellFormed hexec
    rw [Path.name_ofLocation, hsame] at hwritten
    intro hkept
    rw [FileTree.file?_eq_some_iff.mpr hwritten] at hkept
    -- when its turn comes, the source is still as it was
    have hturn : middle.tree.file? (plan.source.parts ++ [name]) =
        before.tree.file? (plan.source.parts ++ [name]) := by
      rw [← hprepared.tree.file?_eq id]
      refine hgrown.tree.file?_eq ?_
      rintro ⟨other, hother, hlocation⟩
      rw [hsources] at hordered
      have hlt := (List.pairwise_append.mp hordered).2.2 other hother _ List.mem_cons_self
      have hshared : name = other.name := by
        simpa using (List.append_inj' hlocation rfl).2
      rw [Path.name_ofLocation, ← hshared] at hlt
      exact lt_irrefl _ hlt
    rw [← hkept] at hturn
    exact enhanced_ne hdefinitions henhance
      (FileTree.readText_written hgrown.wellFormed.tree hproper
        (not_mem_of_enhance henhance) (FileTree.file?_eq_some_iff.mp hturn) hread).symm

/-- The second stage leaves Markdown files as they are. -/
theorem markdown_of_renderStage (convert : Text → Text) (hwf : before.WellFormed)
    (hplanned : Planned request settings plan) (folder : Location) (name : Text) :
    (exec (plan.renderStage convert) before).2.tree.file? (folder ++ [name ++ (".md" : Text)]) =
      before.tree.file? (folder ++ [name ++ (".md" : Text)]) := by
  refine (renderStage_grown hwf hplanned.enhanced hplanned.site (Prod.eta _).symm).tree.file?_eq ?_
  rintro ⟨source, -, hsame⟩
  exact html_ne_md source.stem name (by simpa [pageName] using (List.append_inj' hsame rfl).2.symm)

/-! ## Kept or overwritten -/

/-- What a build does to the Markdown files in the folder of its sources. -/
structure SourcesByFolder [Sub τ] [LT τ] [DecidableLT τ] (environment : Environment)
    (arguments : Arguments) (before : Workspace) (result : Except Failure (Progress τ))
    (after : Workspace) : Prop where
  /-- A build without a plan changes nothing at all. -/
  unplanned : (∀ settings plan, ¬ IsPlan (requestOf arguments) before settings plan) →
    after.tree = before.tree
  kept : ∀ settings plan, (requestOf arguments).settings before.tree before.home = .ok settings →
    (requestOf arguments).plan before.home settings = .ok plan → ¬ Overwrites plan →
    MarkdownKept plan.source.parts before.tree after.tree
  /-- A build that watches leaves them as it finds them whenever it is carried out again. -/
  keptWatching : ∀ settings plan,
    (requestOf arguments).settings before.tree before.home = .ok settings →
    (requestOf arguments).plan before.home settings = .ok plan → ¬ Overwrites plan →
    ∀ (watcher : Watcher τ), result = .ok (.watching watcher) →
    ∀ (trigger : Trigger τ) alive (event : Event τ) (now : Workspace), now.WellFormed →
    MarkdownKept plan.source.parts now.tree
      (Watcher.send { watcher with trigger, alive } event now).2.2.tree
  /-- Every source that is enhanced into its own folder is changed. -/
  overwritten : ∀ settings plan errors enhanced, environment.watching ≠ .missing →
    IsPlan (requestOf arguments) before settings plan → Overwrites plan →
    exec plan.enhanceStage (prepared arguments before) = (.ok errors, enhanced) →
    ∀ name, Path.ofLocation (plan.source.parts ++ [name]) ∈ plan.sources before →
    after.tree.file? (plan.source.parts ++ [name]) ≠
      before.tree.file? (plan.source.parts ++ [name])

section Parts

variable {environment : Environment} {texts : List Text}

/-- A run carries out its plan first, or leaves the tree as it is. -/
theorem tree_of_run (environment : Environment) (hparse : grammar.parse texts = .ok arguments)
    (start : Debounce τ)
    (hsettled : (requestOf arguments).settings before.tree before.home = .ok settings)
    (hplan : (requestOf arguments).plan before.home settings = .ok plan) :
    (exec (run environment start texts) before).2.tree = before.tree ∨
      (exec (run environment start texts) before).2.tree =
        (exec (plan.run environment.convert) (prepared arguments before)).2.tree := by
  by_cases hplanned : environment.watching ≠ .missing ∧
      ∃ settings plan, IsPlan (requestOf arguments) before settings plan
  · obtain ⟨hstart, found, other, hfound⟩ := hplanned
    obtain ⟨rfl, rfl⟩ := hfound.unique hsettled hplan
    right
    rw [exec_run_eq_execute hstart hparse hfound start, tree_execute]
  · obtain ⟨-, console, hsame⟩ := outcome_of_not_isPlan hparse
      (fun hstart settings plan h => hplanned ⟨hstart, settings, plan, h⟩) start
    left
    rw [hsame]

/-- A watching build has a plan, and its watcher carries it out again. -/
theorem job_of_run (hparse : grammar.parse texts = .ok arguments) (start : Debounce τ)
    (hsettled : (requestOf arguments).settings before.tree before.home = .ok settings)
    (hplan : (requestOf arguments).plan before.home settings = .ok plan) {watcher : Watcher τ}
    (h : (exec (run environment start texts) before).1 = .ok (.watching watcher)) :
    watcher.job = rebuild plan environment.convert := by
  by_cases hstart : environment.watching = .missing
  · unfold run withWatching at h
    rw [if_pos hstart] at h
    cases h
  · rw [exec_run_eq hstart hparse] at h
    rcases hsettle : (exec (requestOf arguments).settle (prepared arguments before)).1 with
      failure | refusal | found
    · rw [hsettle] at h
      cases h
    · rw [hsettle] at h
      cases h
    · rw [hsettle] at h
      obtain ⟨other, hfound⟩ := settle_eq_plan_iff.mp hsettle
      obtain ⟨rfl, rfl⟩ := hfound.unique hsettled hplan
      exact job_of_execute h

end Parts

/-- **A build keeps its sources unless it enhances them into their own folder**, and then it
overwrites them. -/
theorem sources_kept_or_overwritten [Sub τ] [LT τ] [DecidableLT τ] {texts : List Text}
    (environment : Environment) (start : Debounce τ) (hwf : before.WellFormed)
    (hparse : grammar.parse texts = .ok arguments) :
    SourcesByFolder environment arguments before (exec (run environment start texts) before).1
      (exec (run environment start texts) before).2 where
  unplanned := by
    intro hnone
    obtain ⟨-, console, hsame⟩ := outcome_of_not_isPlan hparse
      (fun (_ : environment.watching ≠ .missing) => hnone) start
    rw [hsame]
  kept := by
    intro settings plan hsettled hplan hapart
    rcases tree_of_run environment hparse start hsettled hplan with htree | htree
    · rw [htree]
      exact fun _ => rfl
    · rw [htree]
      exact markdownKept_of_run (wellFormed_prepared hwf) (planned_of_plan hwf hplan) hapart
  keptWatching := by
    intro settings plan hsettled hplan hapart watcher hwatcher trigger alive event now hnow
    have hjob := job_of_run hparse start hsettled hplan hwatcher
    rcases tree_send { watcher with trigger, alive } event now with htree | htree
    · rw [htree]
      exact fun _ => rfl
    · rw [htree, hjob, tree_rebuild]
      exact markdownKept_of_run hnow (planned_of_plan hwf hplan) hapart
  overwritten := by
    intro settings plan errors enhanced hstart hplan hoverwrites henhance name hmem
    have hplanned := planned_of_plan hwf hplan.planned
    have hwf' : (prepared arguments before).WellFormed := wellFormed_prepared hwf
    have hgrown := enhanceStage_grown hwf' hplanned.source hplanned.enhanced henhance
    obtain ⟨-, front, -, hname⟩ := of_mem_sources hwf hplanned.source hmem
    rw [Path.name_ofLocation] at hname
    have hrun : (exec (plan.run environment.convert) (prepared arguments before)).2.tree =
        (exec (plan.renderStage environment.convert) enhanced).2.tree := by
      rw [Plan.run_eq, exec_bind, henhance]
      dsimp only
      rw [exec_bind]
      rcases exec (plan.renderStage environment.convert) enhanced with ⟨failure | ⟨⟩, last⟩ <;> rfl
    have hkept := markdown_of_renderStage environment.convert hgrown.wellFormed hplanned
      plan.source.parts front
    rw [← hname] at hkept
    rw [exec_run_eq_execute hstart hparse hplan start, tree_execute, hrun, hkept]
    exact changed_of_overwrites hwf' hplanned hoverwrites.2 henhance hmem

/-- Arguments that name the folder of the sources, in another way, for the enhanced texts. -/
def overwriting : List Text := ["-p", "--preprocess-dir", "e/../s"]

def overwritingArguments : Arguments where
  given := ["preprocess-only", "preprocess-dir"]
  values := [("preprocess-dir", .text "e/../s")]

theorem overwriting_smallBook : grammar.parse overwriting = .ok overwritingArguments ∧
    ((requestOf overwritingArguments).settings smallBook.tree smallBook.home).map
      ((requestOf overwritingArguments).plan smallBook.home) =
        .ok (.ok { smallPlan with stages := .enhanceOnly, enhanced := .ofLocation ["s"] }) := by
  constructor <;> decide +kernel

/-- The build of the small book keeps its source, but the other arguments have it overwritten. -/
theorem sources_kept_or_overwritten_smallBook :
    MarkdownKept ["s"] smallBook.tree
        (exec (run ⟨id, .ready⟩ (⟨0, 0⟩ : Debounce Nat) []) smallBook).2.tree ∧
      (exec (run ⟨id, .ready⟩ (⟨0, 0⟩ : Debounce Nat) overwriting) smallBook).2.tree.file?
        ["s", "x.md"] ≠ smallBook.tree.file? ["s", "x.md"] := by
  have hwf : smallBook.WellFormed := by decide
  have hsmall : ((requestOf {}).settings smallBook.tree smallBook.home).map
      ((requestOf {}).plan smallBook.home) = .ok (.ok smallPlan) := by decide +kernel
  obtain ⟨hparse, hplan⟩ := overwriting_smallBook
  constructor
  · obtain ⟨settings, hsettled, hplanned⟩ := map_eq_ok_iff.mp hsmall
    exact (sources_kept_or_overwritten ⟨id, .ready⟩ (⟨0, 0⟩ : Debounce Nat) hwf (by rfl)).kept
      settings smallPlan hsettled hplanned (by decide)
  · obtain ⟨settings, hsettled, hplanned⟩ := map_eq_ok_iff.mp hplan
    exact (sources_kept_or_overwritten ⟨id, .ready⟩ (⟨0, 0⟩ : Debounce Nat) hwf hparse).overwritten
      settings _ 0 _ (by decide) ⟨hsettled, hplanned, .folder, by decide +kernel⟩ (by decide)
      (Prod.ext (by decide +kernel) rfl) "x.md" (by decide +kernel)

/-- A build can modify its sources: here it is finished with the exit code zero. -/
theorem not_sources_kept : smallBook.WellFormed ∧
    grammar.parse overwriting = .ok overwritingArguments ∧
    ((requestOf overwritingArguments).settings smallBook.tree smallBook.home).map
      ((requestOf overwritingArguments).plan smallBook.home) =
        .ok (.ok { smallPlan with stages := .enhanceOnly, enhanced := .ofLocation ["s"] }) ∧
    (exec (run ⟨id, .ready⟩ (⟨0, 0⟩ : Debounce Nat) overwriting) smallBook).1 =
      .ok (.finished 0) ∧
    ¬ MarkdownKept smallPlan.source.parts smallBook.tree
      (exec (run ⟨id, .ready⟩ (⟨0, 0⟩ : Debounce Nat) overwriting) smallBook).2.tree := by
  refine ⟨by decide, overwriting_smallBook.1, overwriting_smallBook.2, by decide +kernel, ?_⟩
  intro hkept
  have hsource := hkept "x"
  revert hsource
  decide +kernel

end Folio.Command.Build
