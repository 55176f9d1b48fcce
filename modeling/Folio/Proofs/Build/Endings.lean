import Folio.Proofs.Build.Stages
import Folio.Proofs.Build.Steps
import Folio.Proofs.Directive.ErrorModes

/-!
# What can end a build

A build can be ended by whatever it reads or writes. One that goes on after failures is never ended
by a directive (`failsWith_run`): the failures of directives are reported, and the definitions are
refused in another way.
-/

namespace Folio

/-- The failure is not that of a directive. -/
def Failure.NotDirective (failure : Failure) : Prop := ∀ error, failure ≠ .directive error

theorem Failure.notDirective_ofRead (error : ReadError) : NotDirective (.ofRead error) := by
  intro directive
  cases error <;> exact nofun

namespace Run

variable {α β : Type} {E : Failure → Prop}

/-- Whatever ends the run is as described. -/
def FailsWith (E : Failure → Prop) (run : Run α) : Prop :=
  ∀ (workspace : Workspace) (failure : Failure),
    (exec run workspace).1 = .error failure → E failure

theorem failsWith_pure (value : α) : FailsWith E (pure value) := by
  intro workspace failure h
  cases h

theorem failsWith_report (printed : Report) : FailsWith E (report printed) := by
  intro workspace failure h
  cases h

theorem failsWith_reportAll (printed : List Report) : FailsWith E (reportAll printed) := by
  intro workspace failure h
  cases h

theorem failsWith_read {reader : FileTree → Location → Except Failure α}
    (h : ∀ tree home failure, reader tree home = .error failure → E failure) :
    FailsWith E (read reader) := by
  intro workspace failure hfails
  rw [exec_read] at hfails
  exact h _ _ failure hfails

theorem FailsWith.bind {run : Run α} {next : α → Run β} (hrun : FailsWith E run)
    (hnext : ∀ value, FailsWith E (next value)) : FailsWith E (run >>= next) := by
  intro workspace failure h
  have hfirst := hrun workspace
  rw [exec_bind] at h
  generalize exec run workspace = ended at h hfirst
  obtain ⟨cause | value, middle⟩ := ended
  · cases h
    exact hfirst failure rfl
  · exact hnext value middle failure h

theorem FailsWith.discard {run : Run α} (h : FailsWith E run) : FailsWith E (discard run) :=
  h.bind fun _ => failsWith_pure _

theorem failsWith_makeFolders (hfile : ∀ error, E (.file error)) (path : Path) :
    FailsWith E (makeFolders path) := by
  intro workspace failure h
  rw [exec_makeFolders] at h
  generalize workspace.tree.makeFolders workspace.home path = made at h
  obtain ⟨tree, error | ⟨⟩⟩ := made
  · cases h
    exact hfile error
  · cases h

theorem failsWith_writeText (hfile : ∀ error, E (.file error)) (path : Path) (text : Text) :
    FailsWith E (writeText path text) := by
  intro workspace failure h
  rw [exec_writeText] at h
  split at h
  · cases h
  · cases h
    exact hfile _

theorem FailsWith.forM {step : α → Run PUnit} (h : ∀ member, FailsWith E (step member))
    (list : List α) : FailsWith E (list.forM step) := by
  induction list with
  | nil => exact failsWith_pure _
  | cons member list ih => exact (h member).bind fun _ => ih

theorem FailsWith.foldlM {step : β → α → Run β}
    (h : ∀ value member, FailsWith E (step value member))
    (list : List α) (value : β) : FailsWith E (list.foldlM step value) := by
  induction list generalizing value with
  | nil => exact failsWith_pure _
  | cons member list ih =>
    rw [List.foldlM_cons]
    exact (h value member).bind fun next => ih next

end Run

namespace Build

open Run FileTree Directive Failure

variable {tree : FileTree} {home : Location} {source : Path} {plan : Plan} {failure : Failure}

/-! ## The readers -/

theorem notDirective_file (error : FileError) : NotDirective (.file error) := fun _ => nofun

theorem notDirective_foundAt (h : foundAt source tree home = .error failure) :
    NotDirective failure := by
  unfold foundAt at h
  split at h
  · cases h
    exact notDirective_file _
  · cases h
    exact fun _ => nofun
  · cases h

theorem notDirective_definitionsAt {path : Path}
    (h : definitionsAt tree home path = .error failure) : NotDirective failure := by
  unfold definitionsAt at h
  split at h
  · cases h
    exact notDirective_file _
  · cases h
  · split at h
    · cases h
      exact notDirective_ofRead _
    · split at h
      · cases h
      · cases h
        exact fun _ => nofun
      · rename_i cause hparse
        cases h
        obtain ⟨written, hincluded⟩ := (outcome_parse _ _).2 _ hparse
        obtain ⟨error, rfl⟩ := exists_of_includedTemplate_unreadable hincluded
        exact notDirective_ofRead error

/-- In a build that goes on, no directive keeps a source from being enhanced. -/
theorem notDirective_enhancedAt {embed : Bool}
    (h : enhancedAt source (.report embed) tree home = .error failure) : NotDirective failure := by
  unfold enhancedAt at h
  cases hread : tree.readText home source.route with
  | error error =>
    rw [hread] at h
    cases h
    exact notDirective_ofRead error
  | ok text =>
    rw [hread] at h
    cases hdefinitions : definitionsAt tree home definitionsPath with
    | error cause =>
      rw [hdefinitions] at h
      cases h
      exact notDirective_definitionsAt hdefinitions
    | ok definitions =>
      rw [hdefinitions] at h
      unfold enhance at h
      dsimp only [Except.mapError, bind, Except.bind] at h
      rw [expand_report] at h
      cases h

theorem notDirective_requireValue {key : Text} {value : Option Text}
    (h : (requireValue key value).mapError Failure.setting = .error failure) :
    NotDirective failure := by
  generalize requireValue key value = required at h
  cases required with
  | ok found => cases h
  | error error =>
    cases h
    exact fun _ => nofun

theorem notDirective_templateAt {path : Path} (h : templateAt tree home path = .error failure) :
    NotDirective failure := by
  unfold templateAt at h
  split at h
  · cases h
    exact notDirective_file _
  · cases h
    exact fun _ => nofun
  · generalize tree.readText home path.route = read at h
    cases read with
    | ok text => cases h
    | error error =>
      cases h
      exact notDirective_ofRead error

theorem notDirective_wrap {shell : Shell} {title body : Text}
    (h : shell.wrap tree home title body = .error failure) : NotDirective failure := by
  unfold Shell.wrap at h
  cases htemplate : templateAt tree home shell.template with
  | error cause =>
    rw [htemplate] at h
    cases h
    exact notDirective_templateAt htemplate
  | ok template =>
    rw [htemplate] at h
    dsimp only [bind, Except.bind] at h
    split at h
    · rename_i cause hcss
      cases h
      exact notDirective_requireValue hcss
    · split at h
      · rename_i cause hdevJs
        cases h
        exact notDirective_requireValue hdevJs
      · cases h

theorem notDirective_pageAt {convert : Text → Text} {shell : Shell}
    (h : pageAt convert shell source tree home = .error failure) : NotDirective failure := by
  unfold pageAt at h
  cases hread : tree.readText home source.route with
  | error error =>
    rw [hread] at h
    cases h
    exact notDirective_ofRead error
  | ok text =>
    rw [hread] at h
    exact notDirective_wrap h

theorem notDirective_markdownAt {folder : Path} (h : markdownAt folder tree home = .error failure) :
    NotDirective failure := by
  unfold markdownAt at h
  generalize tree.list home folder ".md" = listed at h
  cases listed with
  | ok paths => cases h
  | error error =>
    cases h
    exact notDirective_file error

/-! ## The stages -/

theorem failsWith_publish (target : Path) (text : Text) :
    FailsWith NotDirective (publish target text) :=
  (failsWith_makeFolders notDirective_file _).bind fun _ =>
    failsWith_writeText notDirective_file _ _

theorem failsWith_found (source : Path) : FailsWith NotDirective (read (foundAt source)) :=
  failsWith_read fun _ _ _ => notDirective_foundAt

theorem failsWith_enhanceInto (folder source : Path) (embed : Bool) :
    FailsWith NotDirective (enhanceInto folder source (.report embed)) := by
  rw [enhanceInto_eq]
  refine (failsWith_report _).bind fun _ => (failsWith_found source).bind fun _ => ?_
  refine (failsWith_read fun _ _ _ => notDirective_enhancedAt).bind fun expansion => ?_
  refine (failsWith_reportAll _).bind fun _ => ?_
  exact (failsWith_publish _ _).bind fun _ => failsWith_pure _

theorem failsWith_renderPage (convert : Text → Text) (shell : Shell) (folder source : Path) :
    FailsWith NotDirective (renderPage convert shell folder source) := by
  rw [renderPage_eq]
  refine (failsWith_found source).bind fun _ => (failsWith_report _).bind fun _ => ?_
  refine (failsWith_read fun _ _ _ => notDirective_pageAt).bind fun page => ?_
  exact (failsWith_publish _ _).bind fun _ => failsWith_pure _

theorem failsWith_listMarkdown (folder : Path) : FailsWith NotDirective (listMarkdown folder) := by
  rw [listMarkdown_eq]
  exact failsWith_read fun _ _ _ => notDirective_markdownAt

theorem failsWith_enhanceStage {embed : Bool} (hmode : plan.mode = .report embed) :
    FailsWith NotDirective plan.enhanceStage := by
  unfold Plan.enhanceStage
  split
  · rw [hmode]
    cases plan.name with
    | some name =>
      dsimp only
      rw [enhanceOne_eq]
      refine (failsWith_found _).bind fun _ => ?_
      exact (failsWith_makeFolders notDirective_file _).bind fun _ => failsWith_enhanceInto _ _ _
    | none =>
      refine (failsWith_listMarkdown _).bind fun sources => ?_
      cases sources with
      | nil => exact (failsWith_report _).bind fun _ => failsWith_pure _
      | cons source rest =>
        refine (failsWith_makeFolders notDirective_file _).bind fun _ => ?_
        refine FailsWith.foldlM (fun errors source => ?_) _ _
        exact (failsWith_enhanceInto _ _ _).bind fun _ => failsWith_pure _
  · exact failsWith_pure _

theorem failsWith_renderStage (plan : Plan) (convert : Text → Text) :
    FailsWith NotDirective (plan.renderStage convert) := by
  unfold Plan.renderStage
  split
  · cases plan.name with
    | some name => exact (failsWith_renderPage _ _ _ _).discard
    | none =>
      refine (failsWith_listMarkdown _).bind fun sources => ?_
      cases sources with
      | nil => exact failsWith_report _
      | cons source rest => exact FailsWith.forM (fun _ => (failsWith_renderPage _ _ _ _).discard) _
  · exact failsWith_pure _

/-- A build that goes on after failures is never ended by a directive. -/
theorem failsWith_run {embed : Bool} (hmode : plan.mode = .report embed) (convert : Text → Text) :
    FailsWith NotDirective (plan.run convert) := by
  rw [Plan.run_eq]
  refine (failsWith_enhanceStage hmode).bind fun errors => ?_
  exact (failsWith_renderStage plan convert).bind fun _ => failsWith_pure errors

end Build

end Folio
