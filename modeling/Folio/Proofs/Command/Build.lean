import Folio.Command.Build
import Folio.Proofs.Build.Stages
import Folio.Proofs.Command.Arguments

/-!
# Runs of the build command

A run of the build command either has no plan, and then leaves the tree as it is, or carries out
its plan and is finished with an exit code that tells whether there were failures (`run_cases`).

A plan is made of its request and the paths of the settings (`plan_eq_ok_iff`), which are settled
(`planned_of_plan`).
-/

namespace Folio.Command.Build

open Folio.Build Workspace Run Watch Directive

/-- The request has these settings and this plan in the workspace, and the folder of the sources is
there. -/
structure IsPlan (request : Request) (workspace : Workspace) (settings : Settings) (plan : Plan) :
    Prop where
  settled : request.settings workspace.tree workspace.home = .ok settings
  planned : request.plan workspace.home settings = .ok plan
  sourceFound : ∃ entry, workspace.tree.lookAt workspace.home plan.source.route = .ok (some entry)

variable {τ : Type} {request : Request} {workspace before after : Workspace} {settings : Settings}
  {plan : Plan} {arguments : Arguments}

/-! ## Plans -/

theorem IsPlan.unique (h : IsPlan request workspace settings plan) {other : Settings} {found : Plan}
    (hsettled : request.settings workspace.tree workspace.home = .ok other)
    (hplanned : request.plan workspace.home other = .ok found) :
    other = settings ∧ found = plan := by
  obtain rfl := Except.ok.inj (h.settled.symm.trans hsettled)
  exact ⟨rfl, Except.ok.inj (hplanned.symm.trans h.planned)⟩

/-- What a plan is made of. -/
theorem plan_eq_ok_iff {home : Location} : request.plan home settings = .ok plan ↔
    ∃ source enhanced site template,
      Path.settle home (Path.ofLocation home) (settings .sourceDir) = .ok source ∧
      Path.settle home (Path.ofLocation home) (settings .enhancedDir) = .ok enhanced ∧
      Path.settle home (Path.ofLocation home) (settings .siteDir) = .ok site ∧
      Path.settle home (Path.ofLocation home) (settings .template) = .ok template ∧
      plan = {
        name := request.name.filter (· ≠ []), stages := request.stages, mode := request.mode,
        source, enhanced, site,
        shell := { css := some (settings .css), devJs := some (settings .devJs), template } } := by
  unfold Request.plan
  constructor
  · intro h
    obtain ⟨source, hsource, h⟩ := bind_eq_ok_iff.mp h
    obtain ⟨enhanced, henhanced, h⟩ := bind_eq_ok_iff.mp h
    obtain ⟨site, hsite, h⟩ := bind_eq_ok_iff.mp h
    obtain ⟨template, htemplate, h⟩ := bind_eq_ok_iff.mp h
    exact ⟨source, enhanced, site, template, hsource, henhanced, hsite, htemplate,
      (Except.ok.inj h).symm⟩
  · rintro ⟨source, enhanced, site, template, hsource, henhanced, hsite, htemplate, rfl⟩
    simp only [hsource, henhanced, hsite, htemplate]
    rfl

theorem settled_of_settle_home (hwf : workspace.WellFormed) {text : Text} {path : Path}
    (h : Path.settle workspace.home (Path.ofLocation workspace.home) text = .ok path) :
    path.Settled :=
  (Path.settled_of_settle hwf.home_proper (fun part hpart => .inr (hwf.home_proper part hpart)) h).1

/-- What a plan takes over from its request and its settings. -/
structure Planned (request : Request) (settings : Settings) (plan : Plan) : Prop where
  name : plan.name = request.name.filter (· ≠ [])
  stages : plan.stages = request.stages
  mode : plan.mode = request.mode
  css : plan.shell.css = some (settings .css)
  devJs : plan.shell.devJs = some (settings .devJs)
  source : plan.source.Settled
  enhanced : plan.enhanced.Settled
  site : plan.site.Settled
  template : plan.shell.template.Settled

theorem planned_of_plan (hwf : workspace.WellFormed)
    (h : request.plan workspace.home settings = .ok plan) : Planned request settings plan := by
  obtain ⟨source, enhanced, site, template, hsource, henhanced, hsite, htemplate, rfl⟩ :=
    plan_eq_ok_iff.mp h
  exact ⟨rfl, rfl, rfl, rfl, rfl, settled_of_settle_home hwf hsource,
    settled_of_settle_home hwf henhanced, settled_of_settle_home hwf hsite,
    settled_of_settle_home hwf htemplate⟩

theorem exec_settle :
    exec request.settle workspace =
      (match request.settings workspace.tree workspace.home with
      | .error refusal => .ok (.error refusal)
      | .ok settings =>
        match request.plan workspace.home settings with
        | .error error => .error (.file error)
        | .ok plan =>
          match workspace.tree.lookAt workspace.home plan.source.route with
          | .error error => .error (.file error)
          | .ok none => .ok (.error (.noSource plan.source))
          | .ok (some _) => .ok (.ok plan),
        workspace) := by
  unfold Request.settle
  rw [exec_get_bind]
  rcases request.settings workspace.tree workspace.home with refusal | settings
  · rfl
  · dsimp only
    rw [exec_bind, exec_ofExcept]
    rcases request.plan workspace.home settings with error | plan
    · rfl
    · dsimp only [Except.mapError]
      rw [exec_bind, exec_pathExists]
      rcases workspace.tree.lookAt workspace.home plan.source.route with error | _ | entry <;> rfl

/-- The workspace in which a plan is carried out. -/
def prepared (arguments : Arguments) (workspace : Workspace) : Workspace :=
  { workspace with console := { workspace.console with verbose := arguments.has "verbose" } }

theorem wellFormed_prepared (hwf : workspace.WellFormed) :
    (prepared arguments workspace).WellFormed :=
  hwf.printed _

/-- The exit code of a build that does not watch. -/
def exitCode : Except Failure Nat → Nat
  | .ok 0 => 0
  | _ => 1

instance (result : Except Failure (Progress τ)) (code : Nat) :
    Decidable (result = .ok (.finished code)) :=
  match result with
  | .ok (.finished found) =>
      decidable_of_iff (found = code) ⟨fun h => h ▸ rfl, fun h => by cases h; rfl⟩
  | .ok (.watching _) => isFalse nofun
  | .error _ => isFalse nofun

/-- The console of a build that does not watch, after the last report. -/
def concluded (console : Console) : Except Failure Nat → Console
  | .ok 0 => console
  | .ok errors => console.report
      { level := .error, message := Text.ofNat errors ++ " error(s) during preprocess" }
  | .error failure => console.report { level := .error, message := failure.message }

/-- The workspace of a build that does not watch, after the last report. -/
def finished (ended : Except Failure Nat × Workspace) : Workspace :=
  { ended.2 with console := concluded ended.2.console ended.1 }

/-- Carrying out a plan: what it does to the workspace, and the exit code. -/
theorem exec_execute (environment : Environment) (start : Debounce τ) (plan : Plan)
    (workspace : Workspace) :
    exec (execute environment start false plan) workspace =
      (.ok (.finished (exitCode (exec (plan.run environment.convert) workspace).1)),
        finished (exec (plan.run environment.convert) workspace)) := by
  unfold execute carryOut
  rw [exec_bind, exec_tryCatch, exec_map, exec_bind]
  rcases exec (plan.run environment.convert) workspace with ⟨failure | errors, after⟩
  · rfl
  · cases errors with
    | zero => rfl
    | succ errors => rfl

theorem settle_eq_plan_iff : (exec request.settle workspace).1 = .ok (.ok plan) ↔
    ∃ settings, IsPlan request workspace settings plan := by
  rw [exec_settle]
  constructor
  · intro h
    split at h
    · cases h
    · rename_i settings hsettings
      split at h
      · cases h
      · rename_i found hfound
        split at h
        · cases h
        · cases h
        · rename_i entry hentry
          cases h
          exact ⟨settings, hsettings, hfound, entry, hentry⟩
  · rintro ⟨settings, hsettled, hplanned, entry, hentry⟩
    rw [hsettled]
    dsimp only
    rw [hplanned]
    dsimp only
    rw [hentry]

/-- A run that can start: the settings are settled first, and what they give decides what is
done. -/
theorem exec_run_eq {environment : Environment} {texts : List Text}
    (hstart : environment.watching ≠ .missing) (hparse : grammar.parse texts = .ok arguments)
    (start : Debounce τ) (workspace : Workspace) :
    exec (run environment start texts) workspace =
      match (exec (requestOf arguments).settle (prepared arguments workspace)).1 with
      | .error failure => (.error failure, prepared arguments workspace)
      | .ok (.error refusal) =>
        (.ok (.finished 2), { prepared arguments workspace with
          console := (prepared arguments workspace).console.report
            { level := .error, message := refusalMessage refusal } })
      | .ok (.ok plan) =>
        exec (execute environment start (arguments.has "watch") plan)
          (prepared arguments workspace) := by
  have hsettle : exec (requestOf arguments).settle (prepared arguments workspace) =
      ((exec (requestOf arguments).settle (prepared arguments workspace)).1,
        prepared arguments workspace) := by
    rw [exec_settle]
  unfold run withWatching withArguments
  rw [if_neg hstart, hparse]
  dsimp only
  rw [exec_bind, exec_modify]
  show exec ((requestOf arguments).settle >>= _) (prepared arguments workspace) = _
  rw [exec_bind, hsettle]
  rcases (exec (requestOf arguments).settle (prepared arguments workspace)).1 with
    failure | refusal | plan <;> rfl

/-- A run that can start carries out its plan, and then watches if it is asked to. -/
theorem exec_run_eq_execute {environment : Environment} {texts : List Text}
    (hstart : environment.watching ≠ .missing) (hparse : grammar.parse texts = .ok arguments)
    (hplan : IsPlan (requestOf arguments) workspace settings plan) (start : Debounce τ) :
    exec (run environment start texts) workspace =
      exec (execute environment start (arguments.has "watch") plan)
        (prepared arguments workspace) := by
  have hprepared : IsPlan (requestOf arguments) (prepared arguments workspace) settings plan :=
    ⟨hplan.settled, hplan.planned, hplan.sourceFound⟩
  rw [exec_run_eq hstart hparse, settle_eq_plan_iff.mpr ⟨settings, hprepared⟩]

theorem exec_run_of_isPlan {environment : Environment} {texts : List Text}
    (hstart : environment.watching ≠ .missing) (hparse : grammar.parse texts = .ok arguments)
    (hwatch : arguments.has "watch" = false)
    (hplan : IsPlan (requestOf arguments) workspace settings plan) (start : Debounce τ) :
    exec (run environment start texts) workspace =
      exec (execute environment start false plan) (prepared arguments workspace) := by
  rw [exec_run_eq_execute hstart hparse hplan start, hwatch]

/-- The outcome of a run that has a plan. -/
theorem outcome_of_isPlan {environment : Environment} {texts : List Text}
    (hstart : environment.watching ≠ .missing) (hparse : grammar.parse texts = .ok arguments)
    (hwatch : arguments.has "watch" = false)
    (hplan : IsPlan (requestOf arguments) before settings plan) (start : Debounce τ)
    {result : Except Failure Nat} {carried : Workspace}
    (h : exec (plan.run environment.convert) (prepared arguments before) = (result, carried)) :
    (exec (run environment start texts) before).1 = .ok (.finished (exitCode result)) ∧
      (exec (run environment start texts) before).2.tree = carried.tree := by
  rw [exec_run_of_isPlan hstart hparse hwatch hplan start, exec_execute, h]
  exact ⟨rfl, rfl⟩

/-- A run without a plan changes nothing but the console, and has no exit code but 2. -/
theorem outcome_of_not_isPlan {environment : Environment} {texts : List Text}
    (hparse : grammar.parse texts = .ok arguments)
    (hnone : environment.watching ≠ .missing → ∀ settings plan,
      ¬ IsPlan (requestOf arguments) workspace settings plan) (start : Debounce τ) :
    (∀ code, (exec (run environment start texts) workspace).1 = .ok (.finished code) → code = 2) ∧
      ∃ console, (exec (run environment start texts) workspace).2 = { workspace with console } := by
  by_cases hstart : environment.watching = .missing
  · unfold run withWatching
    rw [if_pos hstart]
    exact ⟨fun _ h => (nomatch h), _, rfl⟩
  · rw [exec_run_eq hstart hparse]
    rcases hsettle : (exec (requestOf arguments).settle (prepared arguments workspace)).1 with
      failure | refusal | plan
    · exact ⟨fun _ h => (nomatch h), _, rfl⟩
    · exact ⟨fun _ h => (by cases h; rfl), _, rfl⟩
    · obtain ⟨settings, hplan⟩ := settle_eq_plan_iff.mp hsettle
      exact absurd ⟨hplan.settled, hplan.planned, hplan.sourceFound⟩ (hnone hstart settings plan)

/-- What a run can do: it carries out a plan, or it has none. -/
theorem run_cases (environment : Environment) {texts : List Text}
    (hparse : grammar.parse texts = .ok arguments) (hwatch : arguments.has "watch" = false)
    (start : Debounce τ) (before : Workspace) :
    (∃ settings plan result carried, IsPlan (requestOf arguments) before settings plan ∧
        exec (plan.run environment.convert) (prepared arguments before) = (result, carried) ∧
        (exec (run environment start texts) before).1 = .ok (.finished (exitCode result)) ∧
        (exec (run environment start texts) before).2.tree = carried.tree) ∨
      (∀ code, (exec (run environment start texts) before).1 = .ok (.finished code) → code = 2) ∧
        (exec (run environment start texts) before).2.tree = before.tree := by
  by_cases hplan : environment.watching ≠ .missing ∧
      ∃ settings plan, IsPlan (requestOf arguments) before settings plan
  · obtain ⟨hstart, settings, plan, hplan⟩ := hplan
    obtain ⟨hcode, htree⟩ := outcome_of_isPlan hstart hparse hwatch hplan start rfl
    exact .inl ⟨settings, plan, _, _, hplan, rfl, hcode, htree⟩
  · obtain ⟨hcode, console, hsame⟩ := outcome_of_not_isPlan hparse
      (fun hstart settings plan h => hplan ⟨hstart, settings, plan, h⟩) start
    exact .inr ⟨hcode, by rw [hsame]⟩

end Folio.Command.Build
