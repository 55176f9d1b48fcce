import Folio.Proofs.Build.Reports
import Folio.Proofs.Command.Build

/-!
# What the exit code tells

The exit code of a build that does not watch is to tell whether an error has been reported. It does
not if all pages are to be rendered and there are none: that is reported as an error, but the exit
code is zero (`Idle`). Nor does it if a failure escapes before the build begins: then there is
neither a report nor an exit code (`Escapes`). Main result: `exit_code_tells_iff`.
-/

namespace Folio.Command.Build

open Folio.Build Workspace Run Watch Directive

variable {τ : Type} {request : Request} {workspace before after : Workspace} {settings : Settings}
  {plan : Plan} {arguments : Arguments}

/-! ## When there is nothing to render -/

/-- There is nothing to enhance, or that is not asked for. -/
def EnhancesNothing (plan : Plan) (workspace : Workspace) : Prop :=
  plan.stages.enhances = true → workspace.tree.list workspace.home plan.source ".md" = .ok []

/-- Without sources, the first stage only says so. -/
theorem exec_enhanceStage_of_none (hname : plan.name = none)
    (hnone : EnhancesNothing plan before) :
    ∃ console, before.console.Complains [] console ∧
      exec plan.enhanceStage before = (.ok 0, { before with console }) := by
  unfold Plan.enhanceStage
  split
  · rename_i hstages
    rw [hname]
    unfold enhanceAll
    dsimp only
    rw [exec_bind, exec_listMarkdown, hnone hstages]
    exact ⟨_, before.console.complains_note rfl, rfl⟩
  · exact ⟨before.console, .refl _, rfl⟩

/-- What the first stage has written is there to be rendered. -/
theorem listed_of_enhanceStage (hwf : before.WellFormed) (hplanned : Planned request settings plan)
    {count : Nat} (h : exec plan.enhanceStage before = (.ok count, after)) {source : Path}
    (hmem : source ∈ plan.sources before) :
    Path.ofLocation (plan.enhanced.parts ++ [source.name]) ∈
      sourcesIn plan.enhanced none after := by
  obtain ⟨errors, -, hcount⟩ := tallied_enhanceStage hwf hplanned.enhanced h
  obtain ⟨-, started, enhancements, hstarted, hexec, henhanced⟩ := hcount count rfl
  obtain ⟨enhancement, hmember, rfl⟩ := List.mem_map.mp (henhanced.sources_eq.symm ▸ hmem)
  obtain ⟨expansion, -, hwritten, hfits⟩ := henhanced.written hwf hplanned.source hplanned.enhanced
    hstarted.wellFormed hexec hmember
  obtain ⟨-, front, -, hname⟩ := of_mem_sources hwf hplanned.source hmem
  have hafter := (enhanceStage_grown hwf hplanned.source hplanned.enhanced h).wellFormed
  have hsome : (after.tree.get? (plan.enhanced.parts ++ [enhancement.source.name])).isSome := by
    rw [hwritten]
    rfl
  rw [sourcesIn_folder hafter hplanned.enhanced (hplanned.enhanced.eq ▸ hfits.above) hsome]
  refine List.mem_map_of_mem (FileTree.mem_namesWith.mpr ⟨hsome, ?_⟩)
  rw [hname]
  exact List.suffix_append _ _

/-- After the first stage there is nothing to render exactly if there was nothing before, and
nothing to enhance. -/
theorem rendersNothing_iff (hwf : before.WellFormed) (hplanned : Planned request settings plan)
    {count : Nat} (h : exec plan.enhanceStage before = (.ok count, after)) :
    plan.RendersNothing after ↔ plan.RendersNothing before ∧ EnhancesNothing plan before := by
  have hsame : plan.name = none → EnhancesNothing plan before →
      after.tree = before.tree ∧ after.home = before.home := by
    intro hname hnone
    obtain ⟨console, -, hstage⟩ := exec_enhanceStage_of_none hname hnone
    obtain ⟨-, rfl⟩ := Prod.mk.inj (h.symm.trans hstage)
    exact ⟨rfl, rfl⟩
  constructor
  · rintro ⟨hrenders, hname, hlisted⟩
    have hnone : EnhancesNothing plan before := by
      intro hstages
      have hsources : plan.sources before = [] := by
        rw [List.eq_nil_iff_forall_not_mem]
        intro source hmem
        have hpage := listed_of_enhanceStage hwf hplanned h hmem
        unfold sourcesIn at hpage
        rw [hlisted] at hpage
        cases hpage
      unfold Plan.sources sourcesIn at hsources
      rw [if_pos hstages, hname] at hsources
      unfold Plan.enhanceStage enhanceAll at h
      rw [if_pos hstages, hname] at h
      dsimp only at h hsources
      rw [exec_bind, exec_listMarkdown] at h
      rcases hfound : before.tree.list before.home plan.source ".md" with error | paths
      · rw [hfound] at h
        cases h
      · rw [hfound] at hsources
        exact congrArg Except.ok hsources
    obtain ⟨htree, hhome⟩ := hsame hname hnone
    rw [htree, hhome] at hlisted
    exact ⟨⟨hrenders, hname, hlisted⟩, hnone⟩
  · rintro ⟨⟨hrenders, hname, hlisted⟩, hnone⟩
    obtain ⟨htree, hhome⟩ := hsame hname hnone
    rw [← htree, ← hhome] at hlisted
    exact ⟨hrenders, hname, hlisted⟩

/-! ## What carrying out a plan reports -/

/-- There is nothing to do for the plan, although it is to render all pages. -/
def IdlePlan (plan : Plan) (workspace : Workspace) : Prop :=
  plan.RendersNothing workspace ∧ EnhancesNothing plan workspace

/-- Carrying out a plan for which there is nothing to do reports that, and does not fail. -/
theorem exec_run_of_idle (convert : Text → Text) (hidle : IdlePlan plan before) :
    ∃ console, before.console.Complains [noPages plan.enhanced] console ∧
      exec (plan.run convert) before = (.ok 0, { before with console }) := by
  obtain ⟨hrenders, hnone⟩ := hidle
  obtain ⟨console, hquiet, hstage⟩ := exec_enhanceStage_of_none hrenders.2.1 hnone
  have hrender : exec (plan.renderStage convert) { before with console } = _ :=
    exec_renderStage_of_none hrenders
  refine ⟨_, hquiet.trans (console.complains_reportAll ?_), ?_⟩
  · rintro report hreport
    rw [List.mem_singleton.mp hreport]
    rfl
  · rw [Plan.run_eq, exec_bind, hstage]
    dsimp only
    rw [exec_bind, hrender]
    rfl

/-- Otherwise, carrying out a plan only reports failures, which are counted if it comes to its
end. -/
theorem complains_run {convert : Text → Text} (hwf : before.WellFormed)
    (hplanned : Planned request settings plan) (hidle : ¬ IdlePlan plan before)
    {result : Except Failure Nat} (h : exec (plan.run convert) before = (result, after)) :
    ∃ errors : List PlacedError,
      before.console.Complains (errors.map errorReport) after.console ∧
      ∀ count, result = .ok count → count = errors.length := by
  rw [Plan.run_eq, exec_bind] at h
  rcases hstage : exec plan.enhanceStage before with ⟨failure | count, middle⟩
  · rw [hstage] at h
    obtain ⟨rfl, rfl⟩ := Prod.mk.inj h
    obtain ⟨errors, hreported, -⟩ := tallied_enhanceStage hwf hplanned.enhanced hstage
    exact ⟨errors, hreported, fun _ h => (nomatch h)⟩
  · rw [hstage] at h
    obtain ⟨errors, hreported, hcount⟩ := tallied_enhanceStage hwf hplanned.enhanced hstage
    have hquiet := complains_renderStage convert
      (fun hrenders => hidle ((rendersNothing_iff hwf hplanned hstage).mp hrenders))
    dsimp only at h
    rw [exec_bind] at h
    generalize exec (plan.renderStage convert) middle = rendered at h hquiet
    obtain ⟨failure | ⟨⟩, last⟩ := rendered
    all_goals
      obtain ⟨rfl, rfl⟩ := Prod.mk.inj h
      have hboth := hreported.trans hquiet
      rw [List.append_nil] at hboth
      refine ⟨errors, hboth, ?_⟩
    · exact fun _ h => (nomatch h)
    · rintro _ ⟨⟩
      exact (hcount count rfl).1

/-- The last report of a build is one of an error, unless it has come to its end without any. -/
theorem complains_concluded (console : Console) (result : Except Failure Nat) :
    (result = .ok 0 ∧ concluded console result = console) ∨
      exitCode result = 1 ∧ ∃ report, console.Complains [report] (concluded console result) := by
  rcases result with failure | _ | errors
  · exact .inr ⟨rfl, _, console.complains_reportAll fun _ h => by rw [List.mem_singleton.mp h]⟩
  · exact .inl ⟨rfl, rfl⟩
  · exact .inr ⟨rfl, _, console.complains_reportAll fun _ h => by rw [List.mem_singleton.mp h]⟩

/-! ## By outcome -/

/-- A failure escapes while the settings are being settled. -/
inductive Unsettled (request : Request) (workspace : Workspace) : Prop
  /-- A setting cannot be a path. -/
  | noPath {settings : Settings} {error : FileError}
      (settled : request.settings workspace.tree workspace.home = .ok settings)
      (refused : request.plan workspace.home settings = .error error)
  /-- The path of the sources is too long to be looked for. -/
  | tooLong {settings : Settings} {plan : Plan} {error : FileError}
      (settled : request.settings workspace.tree workspace.home = .ok settings)
      (planned : request.plan workspace.home settings = .ok plan)
      (refused : workspace.tree.lookAt workspace.home plan.source.route = .error error)

theorem unsettled_iff : Unsettled request workspace ↔
    ∃ failure, (exec request.settle workspace).1 = .error failure := by
  rw [exec_settle]
  constructor
  · rintro (⟨hsettled, hrefused⟩ | ⟨hsettled, hplanned, hrefused⟩)
    · rw [hsettled]
      dsimp only
      rw [hrefused]
      exact ⟨_, rfl⟩
    · rw [hsettled]
      dsimp only
      rw [hplanned]
      dsimp only
      rw [hrefused]
      exact ⟨_, rfl⟩
  · rintro ⟨failure, h⟩
    split at h
    · cases h
    · rename_i settings hsettled
      split at h
      · rename_i error hrefused
        exact .noPath hsettled hrefused
      · rename_i plan hplanned
        split at h
        · rename_i error hrefused
          exact .tooLong hsettled hplanned hrefused
        · cases h
        · cases h

/-- A failure escapes before the build begins. -/
def Escapes (environment : Environment) (arguments : Arguments) (before : Workspace) : Prop :=
  environment.watching = .missing ∨ Unsettled (requestOf arguments) before

/-- The build has nothing to do, although it is to render all pages. -/
structure Idle (environment : Environment) (arguments : Arguments) (before : Workspace)
    (settings : Settings) (plan : Plan) : Prop where
  starts : environment.watching ≠ .missing
  isPlan : IsPlan (requestOf arguments) before settings plan
  idle : IdlePlan plan before

/-- The exit code is zero exactly if no error has been reported, and otherwise one or two. -/
structure Tells (before : Workspace) (result : Except Failure (Progress τ)) (after : Workspace) :
    Prop where
  zero_iff : result = .ok (.finished 0) ↔ after.console.err = before.console.err
  nonzero : after.console.err ≠ before.console.err →
    result = .ok (.finished 1) ∨ result = .ok (.finished 2)

theorem tells_of_complaint {report : Report} {reports : List Report} {code : Nat}
    (hcode : code = 1 ∨ code = 2)
    (h : before.console.Complains (reports ++ [report]) after.console) :
    Tells before (.ok (.finished code) : Except Failure (Progress τ)) after := by
  have hchanged : after.console.err ≠ before.console.err := by
    rw [Ne, h.err_eq_iff]
    simp
  refine ⟨⟨fun hzero => ?_, fun hsame => absurd hsame hchanged⟩, fun _ => ?_⟩
  · cases hzero
    omega
  · rcases hcode with rfl | rfl
    · exact .inl rfl
    · exact .inr rfl

/-- What a build that does not watch reports, and what its exit code tells about it. -/
structure ExitCodeByReports (environment : Environment) (arguments : Arguments)
    (before : Workspace) (result : Except Failure (Progress τ)) (after : Workspace) : Prop where
  /-- What is put on the error stream are reports of errors. -/
  reported : ∃ reports, before.console.Complains reports after.console
  tells_iff : Tells before result after ↔
    (∀ settings plan, ¬ Idle environment arguments before settings plan) ∧
      ¬ Escapes environment arguments before
  /-- A build with nothing to do reports an error, but its exit code is zero. -/
  idle : ∀ settings plan, Idle environment arguments before settings plan →
    result = .ok (.finished 0) ∧
      before.console.Complains [noPages plan.enhanced] after.console
  /-- If a failure escapes, there is neither an exit code nor a report. -/
  escapes : Escapes environment arguments before →
    (∃ failure, result = .error failure) ∧ after.console.err = before.console.err

section Cases

variable {environment : Environment} {result : Except Failure (Progress τ)}

theorem exitCodeByReports_of_escapes {failure : Failure}
    (hescapes : Escapes environment arguments before)
    (hnone : ∀ settings plan, ¬ Idle environment arguments before settings plan)
    (hquiet : before.console.Complains [] after.console) :
    ExitCodeByReports environment arguments before
      (.error failure : Except Failure (Progress τ)) after where
  reported := ⟨[], hquiet⟩
  tells_iff := by
    refine ⟨fun htells => ?_, fun ⟨_, hnot⟩ => absurd hescapes hnot⟩
    cases htells.zero_iff.mpr (hquiet.err_eq_iff.mpr rfl)
  idle := fun settings plan hidle => absurd hidle (hnone settings plan)
  escapes := fun _ => ⟨⟨failure, rfl⟩, hquiet.err_eq_iff.mpr rfl⟩

theorem exitCodeByReports_of_tells {reports : List Report}
    (hescapes : ¬ Escapes environment arguments before)
    (hnone : ∀ settings plan, ¬ Idle environment arguments before settings plan)
    (hreported : before.console.Complains reports after.console)
    (htells : Tells before result after) :
    ExitCodeByReports environment arguments before result after where
  reported := ⟨reports, hreported⟩
  tells_iff := ⟨fun _ => ⟨hnone, hescapes⟩, fun _ => htells⟩
  idle := fun settings plan hidle => absurd hidle (hnone settings plan)
  escapes := fun h => absurd h hescapes

theorem exitCodeByReports_of_idle (hescapes : ¬ Escapes environment arguments before)
    (hidle : Idle environment arguments before settings plan)
    (hreported : before.console.Complains [noPages plan.enhanced] after.console) :
    ExitCodeByReports environment arguments before
      (.ok (.finished 0) : Except Failure (Progress τ)) after where
  reported := ⟨_, hreported⟩
  tells_iff := by
    refine ⟨fun htells => ?_, fun ⟨hnone, _⟩ => absurd hidle (hnone settings plan)⟩
    cases hreported.err_eq_iff.mp (htells.zero_iff.mp rfl)
  idle := by
    intro other found hother
    obtain ⟨rfl, rfl⟩ := hidle.isPlan.unique hother.isPlan.settled hother.isPlan.planned
    exact ⟨rfl, hreported⟩
  escapes := fun h => absurd h hescapes

end Cases

theorem complains_prepared (arguments : Arguments) (before : Workspace) :
    before.console.Complains [] (prepared arguments before).console :=
  ⟨fun _ h => (nomatch h), (List.append_nil _).symm, rfl⟩

/-- The exit code of a plan that is carried out. -/
theorem exitCodeByReports_of_isPlan {environment : Environment} (hwf : before.WellFormed)
    (hstart : environment.watching ≠ .missing)
    (hplan : IsPlan (requestOf arguments) before settings plan) :
    ExitCodeByReports environment arguments before
      (.ok (.finished (exitCode
        (exec (plan.run environment.convert) (prepared arguments before)).1)) :
          Except Failure (Progress τ))
      (finished (exec (plan.run environment.convert) (prepared arguments before))) := by
  have hplanned := planned_of_plan hwf hplan.planned
  have hprepared := complains_prepared arguments before
  have hescapes : ¬ Escapes environment arguments before := by
    rintro (hmissing | hunsettled)
    · exact hstart hmissing
    · obtain ⟨failure, hfailure⟩ := unsettled_iff.mp hunsettled
      rw [settle_eq_plan_iff.mpr ⟨settings, hplan⟩] at hfailure
      cases hfailure
  by_cases hidle : IdlePlan plan before
  · have hsame : IdlePlan plan (prepared arguments before) := hidle
    obtain ⟨console, hreported, hrun⟩ := exec_run_of_idle environment.convert hsame
    rw [hrun]
    exact exitCodeByReports_of_idle hescapes ⟨hstart, hplan, hidle⟩ (hprepared.trans hreported)
  · have hnone : ∀ other found, ¬ Idle environment arguments before other found := by
      intro other found hother
      obtain ⟨rfl, rfl⟩ := hplan.unique hother.isPlan.settled hother.isPlan.planned
      exact hidle hother.idle
    rcases hrun : exec (plan.run environment.convert) (prepared arguments before) with
      ⟨result, carried⟩
    obtain ⟨errors, hreported, hcount⟩ :=
      complains_run (wellFormed_prepared hwf) hplanned hidle hrun
    rcases complains_concluded carried.console result with
      ⟨rfl, hconcluded⟩ | ⟨hcode, report, hconcluded⟩
    · obtain rfl := List.eq_nil_of_length_eq_zero (hcount 0 rfl).symm
      have hquiet : before.console.Complains [] (finished (.ok 0, carried)).console :=
        hprepared.trans (hconcluded.symm ▸ hreported)
      refine exitCodeByReports_of_tells hescapes hnone hquiet ⟨?_, ?_⟩
      · exact ⟨fun _ => hquiet.err_eq_iff.mpr rfl, fun _ => rfl⟩
      · exact fun hchanged => absurd (hquiet.err_eq_iff.mpr rfl) hchanged
    · have hall : before.console.Complains (errors.map errorReport ++ [report])
          (finished (result, carried)).console := (hprepared.trans hreported).trans hconcluded
      rw [hcode]
      exact exitCodeByReports_of_tells hescapes hnone hall (tells_of_complaint (.inl rfl) hall)

/-- **The exit code tells whether an error has been reported**, unless the build has nothing to do
or a failure escapes. -/
theorem exit_code_tells_iff {texts : List Text} (environment : Environment) (start : Debounce τ)
    (hwf : before.WellFormed) (hparse : grammar.parse texts = .ok arguments)
    (hwatch : arguments.has "watch" = false) :
    ExitCodeByReports environment arguments before (exec (run environment start texts) before).1
      (exec (run environment start texts) before).2 := by
  have hprepared := complains_prepared arguments before
  by_cases hstart : environment.watching = .missing
  · unfold run withWatching
    rw [if_pos hstart]
    exact exitCodeByReports_of_escapes (.inl hstart) (fun _ _ h => h.starts hstart) (.refl _)
  · have hsame : (exec (requestOf arguments).settle (prepared arguments before)).1 =
        (exec (requestOf arguments).settle before).1 := by
      rw [exec_settle, exec_settle]
      rfl
    have hnone (h : ∀ plan, (exec (requestOf arguments).settle before).1 ≠ .ok (.ok plan)) :
        ∀ settings plan, ¬ Idle environment arguments before settings plan :=
      fun settings plan hidle => h plan (settle_eq_plan_iff.mpr ⟨settings, hidle.isPlan⟩)
    rw [exec_run_eq hstart hparse, hsame, hwatch]
    rcases hsettle : (exec (requestOf arguments).settle before).1 with failure | refusal | plan
    · refine exitCodeByReports_of_escapes (.inr (unsettled_iff.mpr ⟨failure, hsettle⟩)) ?_ hprepared
      exact hnone fun plan h => (nomatch hsettle.symm.trans h)
    · have hlevel : ∀ report ∈ [({ level := .error, message := refusalMessage refusal } : Report)],
          report.level = .error := by
        intro report hreport
        rw [List.mem_singleton.mp hreport]
      have hreported := hprepared.trans (Console.complains_reportAll _ hlevel)
      refine exitCodeByReports_of_tells ?_ (hnone fun plan h => (nomatch hsettle.symm.trans h))
        hreported (tells_of_complaint (.inr rfl) hreported)
      rintro (hmissing | hunsettled)
      · exact hstart hmissing
      · obtain ⟨failure, hfailure⟩ := unsettled_iff.mp hunsettled
        exact nomatch hsettle.symm.trans hfailure
    · obtain ⟨settings, hplan⟩ := settle_eq_plan_iff.mp hsettle
      dsimp only
      rw [exec_execute]
      exact exitCodeByReports_of_isPlan hwf hstart hplan

/-- A book with two sources, each with a call that lacks an argument. -/
def faultyBook : Workspace where
  home := []
  tree := ⟨[
    (["tools"], .folder),
    (["tools", "build.conf"],
      .file (Utf8.encode "src_dir=s\npreprocess_dir=e\nbuild_dir=b\ntemplate=t\n")),
    (["tools", "preprocess.conf"], .file (Utf8.encode "[[note, body]] = <b>$\x7bbody\x7d</b>\n")),
    (["t"], .file (Utf8.encode "\x7b\x7bbody\x7d\x7d")),
    (["s"], .folder),
    (["s", "a.md"], .file (Utf8.encode "[[note, x]]\n[[note]]\n")),
    (["s", "b.md"], .file (Utf8.encode "[[note]]"))]⟩

/-- Lines of the faulty book fail. They are reported, and the exit code is one. -/
theorem exit_code_tells_iff_faultyBook :
    (exec (run ⟨id, .ready⟩ (⟨0, 0⟩ : Debounce Nat) ["-c", "-p"]) faultyBook).1 =
        .ok (.finished 1) ∧
      ExitCodeByReports ⟨id, .ready⟩ { given := ["continue-on-error", "preprocess-only"] }
        faultyBook (exec (run ⟨id, .ready⟩ (⟨0, 0⟩ : Debounce Nat) ["-c", "-p"]) faultyBook).1
        (exec (run ⟨id, .ready⟩ (⟨0, 0⟩ : Debounce Nat) ["-c", "-p"]) faultyBook).2 ∧
      Tells faultyBook (exec (run ⟨id, .ready⟩ (⟨0, 0⟩ : Debounce Nat) ["-c", "-p"]) faultyBook).1
        (exec (run ⟨id, .ready⟩ (⟨0, 0⟩ : Debounce Nat) ["-c", "-p"]) faultyBook).2 := by
  have hfinished : (exec (run ⟨id, .ready⟩ (⟨0, 0⟩ : Debounce Nat) ["-c", "-p"]) faultyBook).1 =
      .ok (.finished 1) := by decide +kernel
  have hcode := exit_code_tells_iff ⟨id, .ready⟩ (⟨0, 0⟩ : Debounce Nat)
    (by decide : faultyBook.WellFormed)
    (by decide +kernel : grammar.parse ["-c", "-p"] =
      .ok { given := ["continue-on-error", "preprocess-only"] }) (by decide)
  refine ⟨hfinished, hcode, hcode.tells_iff.mpr ⟨?_, ?_⟩⟩
  · intro settings plan hidle
    obtain ⟨hzero, -⟩ := hcode.idle settings plan hidle
    rw [hfinished] at hzero
    cases hzero
  · intro hescapes
    obtain ⟨⟨failure, hfailure⟩, -⟩ := hcode.escapes hescapes
    rw [hfinished] at hfailure
    cases hfailure

/-- A book without a page. -/
def bareBook : Workspace where
  home := []
  tree := ⟨[
    (["tools"], .folder),
    (["tools", "build.conf"], .file (Utf8.encode "src_dir=s\npreprocess_dir=e\nbuild_dir=b\n")),
    (["s"], .folder)]⟩

/-- To render the bare book is reported as an error, but the exit code is zero. -/
theorem not_exit_code_tells : bareBook.WellFormed ∧
    grammar.parse ["-r"] = .ok { given := ["render-only"] } ∧
    ¬ Tells bareBook (exec (run ⟨id, .ready⟩ (⟨0, 0⟩ : Debounce Nat) ["-r"]) bareBook).1
      (exec (run ⟨id, .ready⟩ (⟨0, 0⟩ : Debounce Nat) ["-r"]) bareBook).2 := by
  refine ⟨by decide, by decide +kernel, fun htells => ?_⟩
  have hfinished : (exec (run ⟨id, .ready⟩ (⟨0, 0⟩ : Debounce Nat) ["-r"]) bareBook).1 =
      .ok (.finished 0) := by decide +kernel
  have hsame := htells.zero_iff.mp hfinished
  revert hsame
  decide +kernel

end Folio.Command.Build
