import Folio.Proofs.Command.ExitCode
import Folio.Proofs.Settings

/-!
# When a build is refused

A build is to be refused, with the exit code 2, exactly if its config file cannot be read or has a
faulty line, a value on the command line is blank, or the folder of the sources is not there
(`Refused`). It is, unless a failure escapes: a path with the character NUL, or one of the sources
that is too long to be looked for, is not a reason to refuse but ends the run (`Unplaceable`).
Otherwise the build uses the layered settings. Main result: `exit_code_two_iff`.

* `settings_eq_ok_iff`: the settings of a request;
* `exists_plan_iff`: a plan needs paths without NUL;
* `exists_isPlan_iff`: there is a plan exactly if nothing stands against it.
-/

namespace Folio.Command.Build

open Folio.Build Workspace Run Watch Directive Text

variable {τ : Type} {request : Request} {workspace before : Workspace} {settings : Settings}
  {plan : Plan} {arguments : Arguments} {text : Text}

/-! ## The settings of a request -/

/-- What the config file of the request says. -/
inductive ConfigText (request : Request) (workspace : Workspace) (text : Text) : Prop
  | intro {written : Text} {path : Path} (config : request.config = some written)
      (settled : Path.settle workspace.home (Path.ofLocation workspace.home) written = .ok path)
      (read : workspace.tree.readText workspace.home path.route = .ok text)

theorem ConfigText.unique {other : Text} (h : ConfigText request workspace text)
    (hother : ConfigText request workspace other) : other = text := by
  obtain ⟨hconfig, hsettled, hread⟩ := h
  obtain ⟨hconfig', hsettled', hread'⟩ := hother
  obtain rfl := Option.some.inj (hconfig.symm.trans hconfig')
  obtain rfl := Except.ok.inj (hsettled.symm.trans hsettled')
  exact Except.ok.inj (hread'.symm.trans hread)

/-- The config file can be read, and neither its lines nor the command line stand against it. -/
structure Accepted (request : Request) (workspace : Workspace) (text : Text) : Prop where
  config : ConfigText request workspace text
  lines : ∀ line ∈ text.lines, ¬ Faulty line
  given : ¬ BlankGiven request.given

theorem configAt_eq_ok_iff {tree : FileTree} {home : Location} {path : Path} {config : Bindings} :
    configAt tree home path = .ok config ↔
      ∃ text, tree.readText home path.route = .ok text ∧
        readConfig path.text text = .ok config := by
  unfold configAt
  constructor
  · intro h
    split at h
    · cases h
    · cases h
    · split at h
      · cases h
      · rename_i text hread
        exact ⟨text, hread, eq_ok_of_mapError h⟩
  · rintro ⟨text, hread, hconfig⟩
    obtain ⟨entry, hentry⟩ := FileTree.exists_of_readText hread
    rw [hentry]
    dsimp only
    rw [hread]
    exact mapError_eq_ok_iff.mpr hconfig

theorem settings_eq_ok_iff : request.settings workspace.tree workspace.home = .ok settings ↔
    ∃ text, Accepted request workspace text ∧
      ∀ setting, Layered (request.given setting) text.lines setting (settings setting) := by
  unfold Request.settings settingsAt
  simp only [bind_eq_ok_iff, mapError_eq_ok_iff, configAt_eq_ok_iff]
  constructor
  · rintro ⟨written, hwritten, path, hpath, base, ⟨config, ⟨text, hread, hconfig⟩, hbase⟩, hcheck⟩
    rcases hsome : request.config with _ | found
    · rw [hsome] at hwritten
      cases hwritten
    · rw [hsome] at hwritten
      obtain rfl : found = written := Except.ok.inj hwritten
      obtain ⟨hlines, hgiven, hlayered⟩ :=
        settings_layered_iff.mp ⟨config, base, hconfig, hbase, hcheck⟩
      exact ⟨text, ⟨⟨hsome, hpath, hread⟩, hlines, hgiven⟩, hlayered⟩
  · rintro ⟨text, ⟨@⟨written, path, hsome, hpath, hread⟩, hlines, hgiven⟩, hlayered⟩
    obtain ⟨config, base, hconfig, hbase, hcheck⟩ :=
      settings_layered_iff.mpr ⟨hlines, hgiven, hlayered⟩
    refine ⟨written, ?_, path, hpath, base, ⟨config, ⟨text, hread, hconfig⟩, hbase⟩, hcheck⟩
    rw [hsome]
    rfl

/-! ## The paths of a plan -/

/-- The settings that are paths. -/
def pathSettings : List Setting := [.sourceDir, .enhancedDir, .siteDir, .template]

/-- The plan uses the settings, and those that are paths lead from the folder in which it runs. -/
structure Uses (home : Location) (settings : Settings) (plan : Plan) : Prop where
  source : Path.settle home (Path.ofLocation home) (settings .sourceDir) = .ok plan.source
  enhanced : Path.settle home (Path.ofLocation home) (settings .enhancedDir) = .ok plan.enhanced
  site : Path.settle home (Path.ofLocation home) (settings .siteDir) = .ok plan.site
  template : Path.settle home (Path.ofLocation home) (settings .template) = .ok plan.shell.template
  css : plan.shell.css = some (settings .css)
  devJs : plan.shell.devJs = some (settings .devJs)

theorem uses_of_plan {home : Location} (h : request.plan home settings = .ok plan) :
    Uses home settings plan := by
  obtain ⟨source, enhanced, site, template, hsource, henhanced, hsite, htemplate, rfl⟩ :=
    plan_eq_ok_iff.mp h
  exact ⟨hsource, henhanced, hsite, htemplate, rfl, rfl⟩

theorem exists_settle_iff (home : Location) (folder : Path) {written : Text} :
    (∃ path, Path.settle home folder written = .ok path) ↔ '\x00' ∉ written := by
  unfold Path.settle
  split_ifs with hnul
  · simp [hnul]
  · simp [hnul]

theorem exists_plan_iff {home : Location} :
    (∃ plan, request.plan home settings = .ok plan) ↔
      ∀ setting ∈ pathSettings, '\x00' ∉ settings setting := by
  simp only [pathSettings, List.forall_mem_cons, ← exists_settle_iff home (Path.ofLocation home)]
  constructor
  · rintro ⟨plan, hplan⟩
    obtain ⟨hsource, henhanced, hsite, htemplate, -, -⟩ := uses_of_plan hplan
    exact ⟨⟨_, hsource⟩, ⟨_, henhanced⟩, ⟨_, hsite⟩, ⟨_, htemplate⟩,
      fun _ h => absurd h List.not_mem_nil⟩
  · rintro ⟨⟨source, hsource⟩, ⟨enhanced, henhanced⟩, ⟨site, hsite⟩, ⟨template, htemplate⟩, -⟩
    exact ⟨_, plan_eq_ok_iff.mpr ⟨source, enhanced, site, template, hsource, henhanced, hsite,
      htemplate, rfl⟩⟩

/-! ## Refusals and failures -/

/-- There is nothing where the path of the written text leads. -/
def Absent (workspace : Workspace) (written : Text) : Prop :=
  ∀ path entry, Path.settle workspace.home (Path.ofLocation workspace.home) written = .ok path →
    workspace.tree.lookAt workspace.home path.route ≠ .ok (some entry)

/-- What stands against a build. -/
inductive Refused (request : Request) (workspace : Workspace) : Prop
  /-- The config file is missing or cannot be read. -/
  | config (unread : ∀ text, ¬ ConfigText request workspace text)
  | line {text line : Text} (config : ConfigText request workspace text) (mem : line ∈ text.lines)
      (faulty : Faulty line)
  | given (blank : BlankGiven request.given)
  | source {text value : Text} (config : ConfigText request workspace text)
      (layered : Layered (request.given .sourceDir) text.lines .sourceDir value)
      (absent : Absent workspace value)

/-- The settings are accepted, but a path in them cannot be looked for. -/
inductive Unplaceable (request : Request) (workspace : Workspace) : Prop
  | nul {text value : Text} {setting : Setting} (accepted : Accepted request workspace text)
      (mem : setting ∈ pathSettings)
      (layered : Layered (request.given setting) text.lines setting value) (nul : '\x00' ∈ value)
  | tooLong {text value : Text} {path : Path} (accepted : Accepted request workspace text)
      (layered : Layered (request.given .sourceDir) text.lines .sourceDir value)
      (settled : Path.settle workspace.home (Path.ofLocation workspace.home) value = .ok path)
      (tooLong : workspace.tree.locate workspace.home path.route = .error .tooLong)

theorem lookAt_eq_error_iff {tree : FileTree} {home : Location} {route : Route} :
    (∃ error, tree.lookAt home route = .error error) ↔
      tree.locate home route = .error .tooLong := by
  unfold FileTree.lookAt
  split
  · rename_i location h
    simp [h]
  · rename_i h
    simp [h]
  · rename_i obstacle hne h
    simpa [h] using hne

theorem Accepted.settings_eq (haccepted : Accepted request workspace text)
    (hlayered : ∀ setting, Layered (request.given setting) text.lines setting (settings setting)) :
    request.settings workspace.tree workspace.home = .ok settings :=
  settings_eq_ok_iff.mpr ⟨text, haccepted, hlayered⟩

theorem Accepted.exists_settings (haccepted : Accepted request workspace text) :
    ∃ settings : Settings, request.settings workspace.tree workspace.home = .ok settings ∧
      ∀ setting, Layered (request.given setting) text.lines setting (settings setting) := by
  choose settings hlayered using fun setting : Setting =>
    exists_layered (request.given setting) text.lines setting
  exact ⟨settings, haccepted.settings_eq hlayered, hlayered⟩

/-- A failure escapes exactly if a path cannot be looked for. -/
theorem unsettled_iff_unplaceable :
    Unsettled request workspace ↔ Unplaceable request workspace := by
  constructor
  · intro h
    cases h with
    | @noPath settings error hsettled hrefused =>
      obtain ⟨text, haccepted, hlayered⟩ := settings_eq_ok_iff.mp hsettled
      have hnone : ¬ ∃ plan, request.plan workspace.home settings = .ok plan := by
        rintro ⟨plan, hplan⟩
        cases hrefused.symm.trans hplan
      rw [exists_plan_iff] at hnone
      push Not at hnone
      obtain ⟨setting, hmem, hnul⟩ := hnone
      exact .nul haccepted hmem (hlayered setting) hnul
    | tooLong hsettled hplanned hrefused =>
      obtain ⟨text, haccepted, hlayered⟩ := settings_eq_ok_iff.mp hsettled
      exact .tooLong haccepted (hlayered .sourceDir) (uses_of_plan hplanned).source
        (lookAt_eq_error_iff.mp ⟨_, hrefused⟩)
  · intro h
    cases h with
    | @nul text value setting haccepted hmem hlayered hnul =>
      obtain ⟨settings, hsettled, hsettings⟩ := haccepted.exists_settings
      rcases hplan : request.plan workspace.home settings with error | plan
      · exact .noPath hsettled hplan
      · have hclean := exists_plan_iff.mp ⟨plan, hplan⟩ setting hmem
        rw [hlayered.unique (hsettings setting)] at hclean
        exact absurd hnul hclean
    | @tooLong text value path haccepted hlayered hpath hlong =>
      obtain ⟨settings, hsettled, hsettings⟩ := haccepted.exists_settings
      rcases hplan : request.plan workspace.home settings with error | plan
      · exact .noPath hsettled hplan
      · have hsource := (uses_of_plan hplan).source
        rw [hlayered.unique (hsettings .sourceDir), hpath] at hsource
        obtain rfl := Except.ok.inj hsource
        obtain ⟨error, herror⟩ := lookAt_eq_error_iff.mpr hlong
        exact .tooLong hsettled hplan herror

theorem not_refused_of_isPlan (h : IsPlan request workspace settings plan) :
    ¬ Refused request workspace := by
  obtain ⟨text, haccepted, hlayered⟩ := settings_eq_ok_iff.mp h.settled
  intro hrefused
  cases hrefused with
  | config hunread => exact hunread text haccepted.config
  | line hconfig hmem hfaulty =>
    obtain rfl := haccepted.config.unique hconfig
    exact haccepted.lines _ hmem hfaulty
  | given hblank => exact haccepted.given hblank
  | source hconfig hsource habsent =>
    obtain rfl := haccepted.config.unique hconfig
    obtain rfl := (hlayered .sourceDir).unique hsource
    obtain ⟨entry, hentry⟩ := h.sourceFound
    exact habsent _ entry (uses_of_plan h.planned).source hentry

/-- There is a plan exactly if nothing stands against the build and no failure escapes. -/
theorem exists_isPlan_iff : (∃ settings plan, IsPlan request workspace settings plan) ↔
    ¬ Refused request workspace ∧ ¬ Unplaceable request workspace := by
  constructor
  · rintro ⟨settings, plan, hplan⟩
    refine ⟨not_refused_of_isPlan hplan, fun hunplaceable => ?_⟩
    obtain ⟨failure, hfailure⟩ := unsettled_iff.mp (unsettled_iff_unplaceable.mpr hunplaceable)
    cases (settle_eq_plan_iff.mpr ⟨settings, hplan⟩).symm.trans hfailure
  · rintro ⟨hrefused, hunplaceable⟩
    obtain ⟨text, hconfig⟩ : ∃ text, ConfigText request workspace text := by
      by_contra hnone
      exact hrefused (.config fun text h => hnone ⟨text, h⟩)
    have haccepted : Accepted request workspace text :=
      ⟨hconfig, fun line hmem hfaulty => hrefused (.line hconfig hmem hfaulty),
        fun hblank => hrefused (.given hblank)⟩
    obtain ⟨settings, hsettled, hlayered⟩ := haccepted.exists_settings
    obtain ⟨plan, hplan⟩ := exists_plan_iff.mpr fun setting hmem hnul =>
      hunplaceable (.nul haccepted hmem (hlayered setting) hnul)
    refine ⟨settings, plan, hsettled, hplan, ?_⟩
    by_contra habsent
    refine hrefused (.source hconfig (hlayered .sourceDir) fun path entry hpath hentry => ?_)
    obtain rfl := Except.ok.inj ((uses_of_plan hplan).source.symm.trans hpath)
    exact habsent ⟨entry, hentry⟩

/-! ## The exit code -/

/-- What a build that does not watch makes of its settings. -/
structure BySettings (environment : Environment) (start : Debounce τ) (arguments : Arguments)
    (before : Workspace) (ended : Except Failure (Progress τ) × Workspace) : Prop where
  two_iff : ended.1 = .ok (.finished 2) ↔ environment.watching ≠ .missing ∧
    Refused (requestOf arguments) before ∧ ¬ Unplaceable (requestOf arguments) before
  fails : environment.watching = .missing ∨ Unplaceable (requestOf arguments) before →
    ∃ failure, ended.1 = .error failure
  /-- Otherwise a plan that uses the layered settings is carried out. -/
  carriedOut : environment.watching ≠ .missing → ¬ Refused (requestOf arguments) before →
    ¬ Unplaceable (requestOf arguments) before →
    ∃ text settings plan, ConfigText (requestOf arguments) before text ∧
      (∀ setting, Layered ((requestOf arguments).given setting) text.lines setting
        (settings setting)) ∧
      Uses before.home settings plan ∧
      ended = exec (execute environment start false plan) (prepared arguments before)

theorem exitCode_ne_two (result : Except Failure Nat) : exitCode result ≠ 2 := by
  rcases result with failure | _ | errors
  · exact (by decide : 1 ≠ 2)
  · exact (by decide : 0 ≠ 2)
  · exact (by decide : 1 ≠ 2)

theorem exec_settle_prepared (request : Request) (arguments : Arguments) (before : Workspace) :
    (exec request.settle (prepared arguments before)).1 = (exec request.settle before).1 := by
  rw [exec_settle, exec_settle]
  rfl

section Cases

variable {environment : Environment} {start : Debounce τ} {after : Workspace}

theorem bySettings_of_failure {failure : Failure}
    (h : environment.watching = .missing ∨ Unplaceable (requestOf arguments) before) :
    BySettings environment start arguments before (.error failure, after) where
  two_iff := by
    constructor
    · intro htwo
      cases htwo
    · rintro ⟨hstart, -, hplaceable⟩
      exact absurd h (not_or.mpr ⟨hstart, hplaceable⟩)
  fails := fun _ => ⟨failure, rfl⟩
  carriedOut := fun hstart _ hplaceable => absurd h (not_or.mpr ⟨hstart, hplaceable⟩)

theorem bySettings_of_refused (hstart : environment.watching ≠ .missing)
    (hrefused : Refused (requestOf arguments) before)
    (hplaceable : ¬ Unplaceable (requestOf arguments) before) :
    BySettings environment start arguments before (.ok (.finished 2), after) where
  two_iff := ⟨fun _ => ⟨hstart, hrefused, hplaceable⟩, fun _ => rfl⟩
  fails := fun h => absurd h (not_or.mpr ⟨hstart, hplaceable⟩)
  carriedOut := fun _ hnot _ => absurd hrefused hnot

theorem bySettings_of_isPlan (hstart : environment.watching ≠ .missing)
    (hplan : IsPlan (requestOf arguments) before settings plan) :
    BySettings environment start arguments before
      (exec (execute environment start false plan) (prepared arguments before)) := by
  obtain ⟨hrefused, hplaceable⟩ := exists_isPlan_iff.mp ⟨settings, plan, hplan⟩
  refine ⟨⟨fun htwo => ?_, fun h => absurd h.2.1 hrefused⟩,
    fun h => absurd h (not_or.mpr ⟨hstart, hplaceable⟩), fun _ _ _ => ?_⟩
  · rw [exec_execute] at htwo
    injection htwo with htwo
    injection htwo with htwo
    exact absurd htwo (exitCode_ne_two _)
  · obtain ⟨text, haccepted, hlayered⟩ := settings_eq_ok_iff.mp hplan.settled
    exact ⟨text, settings, plan, haccepted.config, hlayered, uses_of_plan hplan.planned, rfl⟩

end Cases

/-- **A build is refused exactly if something stands against it**, unless a failure escapes, and
otherwise uses the layered settings. -/
theorem exit_code_two_iff {texts : List Text} (environment : Environment) (start : Debounce τ)
    (before : Workspace) (hparse : grammar.parse texts = .ok arguments)
    (hwatch : arguments.has "watch" = false) :
    BySettings environment start arguments before (exec (run environment start texts) before) := by
  by_cases hstart : environment.watching = .missing
  · unfold run withWatching
    rw [if_pos hstart]
    exact bySettings_of_failure (.inl hstart)
  · rw [exec_run_eq hstart hparse, exec_settle_prepared, hwatch]
    rcases hsettle : (exec (requestOf arguments).settle before).1 with failure | refusal | plan
    · exact bySettings_of_failure
        (.inr (unsettled_iff_unplaceable.mp (unsettled_iff.mpr ⟨failure, hsettle⟩)))
    · have hplaceable : ¬ Unplaceable (requestOf arguments) before := by
        intro hunplaceable
        obtain ⟨failure, hfailure⟩ := unsettled_iff.mp (unsettled_iff_unplaceable.mpr hunplaceable)
        cases hsettle.symm.trans hfailure
      refine bySettings_of_refused hstart ?_ hplaceable
      by_contra hrefused
      obtain ⟨settings, plan, hplan⟩ := exists_isPlan_iff.mpr ⟨hrefused, hplaceable⟩
      cases hsettle.symm.trans (settle_eq_plan_iff.mpr ⟨settings, hplan⟩)
    · obtain ⟨settings, hplan⟩ := settle_eq_plan_iff.mp hsettle
      exact bySettings_of_isPlan hstart hplan

/-- A blank address of the style sheet is refused. -/
theorem exit_code_two_iff_blankCss :
    BySettings ⟨id, .ready⟩ (⟨0, 0⟩ : Debounce Nat)
        { given := ["css"], values := [("css", .text " ")] } bareBook
        (exec (run ⟨id, .ready⟩ (⟨0, 0⟩ : Debounce Nat) ["--css", " "]) bareBook) ∧
      (exec (run ⟨id, .ready⟩ (⟨0, 0⟩ : Debounce Nat) ["--css", " "]) bareBook).1 =
        .ok (.finished 2) := by
  have hby := exit_code_two_iff ⟨id, .ready⟩ (⟨0, 0⟩ : Debounce Nat) bareBook
    (by decide +kernel : grammar.parse ["--css", " "] =
      .ok { given := ["css"], values := [("css", .text " ")] }) (by decide)
  have hblank : BlankGiven (requestOf { given := ["css"], values := [("css", .text " ")] }).given :=
    ⟨.css, " ", by decide, by decide, by decide⟩
  refine ⟨hby, hby.two_iff.mpr ⟨by decide, .given hblank, ?_⟩⟩
  rintro (⟨haccepted, -, -, -⟩ | ⟨haccepted, -, -, -⟩)
  · exact haccepted.given hblank
  · exact haccepted.given hblank

/-- A name that is too long for a folder. -/
def longName : Text := List.replicate 300 'n'

def longSource : Arguments where
  given := ["src-dir"]
  values := [("src-dir", .text longName)]

/-- **A folder that cannot be there is not refused.** There is no folder with a name that is too
long, but a build from it has no exit code. -/
theorem not_exit_code_two_iff :
    grammar.parse ["--src-dir", longName] = .ok longSource ∧
      Refused (requestOf longSource) bareBook ∧
      (exec (run ⟨id, .ready⟩ (⟨0, 0⟩ : Debounce Nat) ["--src-dir", longName]) bareBook).1 ≠
        .ok (.finished 2) := by
  refine ⟨by decide +kernel, ?_, by decide +kernel⟩
  have hread : bareBook.tree.readText [] (Path.ofLocation ["tools", "build.conf"]).route =
      .ok "src_dir=s\npreprocess_dir=e\nbuild_dir=b\n" := by decide +kernel
  have hconfig : Path.settle [] (Path.ofLocation []) "tools/build.conf" =
      .ok (Path.ofLocation ["tools", "build.conf"]) := by decide
  have hlayered : Layered ((requestOf longSource).given .sourceDir)
      (lines "src_dir=s\npreprocess_dir=e\nbuild_dir=b\n") .sourceDir longName :=
    .override (by decide +kernel) (by decide)
  refine .source ⟨rfl, hconfig, hread⟩ hlayered fun path entry hpath hentry => ?_
  have hplace : Path.settle [] (Path.ofLocation []) longName =
      .ok (Path.ofLocation [longName]) := by decide +kernel
  obtain rfl := Except.ok.inj (hplace.symm.trans hpath)
  have hlong : bareBook.tree.locate [] (Path.ofLocation [longName]).route =
      .error .tooLong := by decide +kernel
  obtain ⟨error, herror⟩ := lookAt_eq_error_iff.mpr hlong
  cases hentry.symm.trans herror

end Folio.Command.Build
