import Folio.Proofs.Build.Stages
import Folio.Proofs.Build.Steps
import Folio.Proofs.Directive.ErrorModes

/-!
# What a build reports

On the error stream, the stages of a build only put reports of errors (`Console.Complains`). The
first stage reports the failures of the lines of its sources, file by file, and counts them
(`tallied_enhanceStage`). The second stage reports that there is nothing to render, and nothing else
(`complains_renderStage`, `exec_renderStage_of_none`).
-/

namespace Folio

/-! ## The error stream -/

/-- What has been put on the error stream are these reports of errors. -/
structure Console.Complains (before : Console) (reports : List Report) (after : Console) :
    Prop where
  errors : ∀ report ∈ reports, report.level = .error
  err : after.err = before.err ++ reports.flatMap before.complaintOf
  /-- Later reports are printed in the same way. -/
  style : after.complaintOf = before.complaintOf

namespace Console

variable {before middle after : Console} {reports more : List Report}

theorem Complains.refl (console : Console) : console.Complains [] console :=
  ⟨fun _ h => (nomatch h), (List.append_nil _).symm, rfl⟩

theorem Complains.trans (hfirst : before.Complains reports middle)
    (hsecond : middle.Complains more after) : before.Complains (reports ++ more) after where
  errors := by
    intro report hreport
    rcases List.mem_append.mp hreport with hreport | hreport
    · exact hfirst.errors report hreport
    · exact hsecond.errors report hreport
  err := by
    rw [hsecond.err, hfirst.err, hfirst.style, List.flatMap_append, List.append_assoc]
  style := hsecond.style.trans hfirst.style

theorem complains_reportAll (console : Console) (h : ∀ report ∈ reports, report.level = .error) :
    console.Complains reports (console.reportAll reports) := ⟨h, rfl, rfl⟩

/-- A note is no complaint. -/
theorem complains_note (console : Console) {report : Report} (h : report.level = .info) :
    console.Complains [] (console.report report) := by
  refine ⟨fun _ h => (nomatch h), ?_, rfl⟩
  show console.err ++ [report].flatMap console.complaintOf = _
  rw [List.flatMap_singleton, complaintOf, if_pos h]
  rfl

/-- A line as the error stream shows it. -/
def shown (console : Console) (line : Text) : Text :=
  if console.supportsEmphasis console.errIsTerminal then emphasize line else line

theorem complaintOf_eq (console : Console) {report : Report} (h : report.level = .error) :
    console.complaintOf report = console.shown report.line ++ ['\n'] := by
  have hlevel : report.level ≠ .info := by
    rw [h]
    decide
  unfold complaintOf shown
  rw [if_neg hlevel]
  split <;> rfl

theorem singleLine_shown (console : Console) {line : Text} (h : Text.SingleLine line) :
    Text.SingleLine (console.shown line) := by
  unfold shown emphasize
  split
  · exact ((Text.singleLine_literal (by decide)).append h).append
      (Text.singleLine_literal (by decide))
  · exact h

/-- Reports of errors are printed as their lines. -/
theorem lines_flatMap_complaintOf (console : Console)
    (herrors : ∀ report ∈ reports, report.level = .error)
    (hsingle : ∀ report ∈ reports, Text.SingleLine report.line) :
    Text.lines (reports.flatMap console.complaintOf) =
      (reports.map (·.line)).map console.shown := by
  have hlines : ∀ line ∈ (reports.map (·.line)).map console.shown, Text.SingleLine line := by
    rw [List.map_map]
    intro line hline
    obtain ⟨report, hreport, rfl⟩ := List.mem_map.mp hline
    exact console.singleLine_shown (hsingle report hreport)
  rw [List.flatMap_congr fun report hreport => console.complaintOf_eq (herrors report hreport),
    ← Directive.lines_flatMap_lineFeed hlines, List.flatMap_map, List.flatMap_map]

/-- Every report of an error shows. -/
theorem Complains.err_eq_iff (h : before.Complains reports after) :
    after.err = before.err ↔ reports = [] := by
  rw [h.err]
  constructor
  · intro hsame
    cases reports with
    | nil => rfl
    | cons report rest =>
      have hnil : (report :: rest).flatMap before.complaintOf = [] :=
        List.append_right_eq_self.mp hsame
      rw [List.flatMap_cons, List.append_eq_nil_iff] at hnil
      rw [before.complaintOf_eq (h.errors report List.mem_cons_self)] at hnil
      exact absurd hnil.1 (List.concat_ne_nil _ _)
  · rintro rfl
    exact List.append_nil _

end Console

/-! ## Quiet runs -/

namespace Run

variable {α β : Type}

/-- The run puts nothing on the error stream. -/
def Quiet (run : Run α) : Prop :=
  ∀ workspace : Workspace, workspace.console.Complains [] (exec run workspace).2.console

/-- A quiet run fails, or what comes after it goes on where it ended. -/
theorem Quiet.cases {run : Run α} {next : α → Run β} {before after : Workspace}
    {result : Except Failure β} (hrun : Quiet run)
    (h : exec (run >>= next) before = (result, after)) :
    (∃ failure, result = .error failure ∧ before.console.Complains [] after.console) ∨
      ∃ value middle, exec run before = (.ok value, middle) ∧
        before.console.Complains [] middle.console ∧
        exec (next value) middle = (result, after) := by
  have hfirst := hrun before
  rw [exec_bind] at h
  generalize exec run before = ended at h hfirst ⊢
  obtain ⟨failure | value, middle⟩ := ended
  · obtain ⟨rfl, rfl⟩ := Prod.mk.inj h
    exact .inl ⟨failure, rfl, hfirst⟩
  · exact .inr ⟨value, middle, rfl, hfirst, h⟩

theorem Quiet.bind {run : Run α} {next : α → Run β} (hrun : Quiet run)
    (hnext : ∀ value, Quiet (next value)) : Quiet (run >>= next) := by
  intro workspace
  rcases hrun.cases (Prod.eta _).symm with ⟨_, -, hquiet⟩ | ⟨value, middle, -, hfirst, hlast⟩
  · exact hquiet
  · have hsecond := hnext value middle
    rw [hlast] at hsecond
    exact hfirst.trans hsecond

theorem quiet_pure (value : α) : Quiet (pure value) := fun _ => .refl _

theorem quiet_read (reader : FileTree → Location → Except Failure α) : Quiet (read reader) := by
  intro workspace
  rw [exec_read]
  exact .refl _

theorem quiet_report {note : Report} (h : note.level = .info) : Quiet (report note) :=
  fun workspace => workspace.console.complains_note h

theorem quiet_makeFolders (path : Path) : Quiet (makeFolders path) := by
  intro workspace
  rw [exec_makeFolders]
  exact .refl _

theorem quiet_writeText (path : Path) (text : Text) : Quiet (writeText path text) := by
  intro workspace
  rw [exec_writeText]
  cases workspace.tree.writeBytes workspace.home path.route (Utf8.encode text) with
  | ok tree => exact .refl _
  | error error => exact .refl _

theorem Quiet.discard {run : Run α} (h : Quiet run) : Quiet (discard run) := by
  intro workspace
  rw [exec_discard]
  exact h workspace

theorem Quiet.forM {step : α → Run PUnit} (h : ∀ member, Quiet (step member)) (list : List α) :
    Quiet (list.forM step) := by
  induction list with
  | nil => exact quiet_pure _
  | cons member list ih => exact (h member).bind fun _ => ih

end Run

namespace Build

open Workspace Run Directive

variable {before after : Workspace} {plan : Plan} {source : Path}

theorem quiet_publish (target : Path) (text : Text) : Quiet (publish target text) :=
  (quiet_makeFolders _).bind fun _ => quiet_writeText _ _

/-! ## The first stage -/

/-- A source that has been enhanced: its text and the definitions, as they were read. -/
structure Enhancement where
  source : Path
  text : Text
  definitions : Definitions

/-- The failures of the lines of the source. -/
def Enhancement.failures (enhancement : Enhancement) : List PlacedError :=
  Directive.failures enhancement.definitions.directives (some enhancement.source.text)
    enhancement.text

theorem errors_of_enhance {definitions : Definitions} {path : Option Text} {mode : ErrorMode}
    {text : Text} {expansion : Expansion}
    (h : enhance definitions path mode text = .ok expansion) :
    expansion.errors = failures definitions.directives path text := by
  unfold enhance at h
  obtain ⟨expanded, hexpand, rfl⟩ := map_eq_ok_iff.mp h
  dsimp only
  rw [errors_of_expand _ _ hexpand]

/-- Failures are reported before the text is published, so they are also if that goes wrong. -/
theorem complains_of_publish {errors : List PlacedError} {target : Path} {text : Text}
    {result : Except Failure Nat}
    (h : exec (do
      reportAll (errors.map errorReport)
      publish target text
      return errors.length) before = (result, after)) :
    before.console.Complains (errors.map errorReport) after.console ∧
      ∀ count, result = .ok count → count = errors.length := by
  have hlevels : ∀ report ∈ errors.map errorReport, report.level = .error := by
    intro report hreport
    obtain ⟨error, -, rfl⟩ := List.mem_map.mp hreport
    rfl
  replace h : exec (publish target text >>= fun _ => pure errors.length)
      { before with console := before.console.reportAll (errors.map errorReport) } =
        (result, after) := h
  have hquiet := ((quiet_publish target text).bind fun _ => quiet_pure errors.length)
    { before with console := before.console.reportAll (errors.map errorReport) }
  rw [h] at hquiet
  refine ⟨?_, ?_⟩
  · have hreported := (before.console.complains_reportAll hlevels).trans hquiet
    rwa [List.append_nil] at hreported
  · rintro count rfl
    obtain ⟨_, _, -, hlast⟩ := exec_bind_eq_ok.mp h
    exact (Except.ok.inj (Prod.mk.inj hlast).1).symm

/-- Enhancing a file that can be read reports the failures of its lines if it goes on after them,
whether its text can be published or not. -/
theorem complains_enhanceFile {target : Path} {text : Text} {definitions : Definitions}
    (htext : before.tree.readText before.home source.route = .ok text)
    (hdefinitions : definitionsAt before.tree before.home definitionsPath = .ok definitions)
    (embed : Bool) :
    before.console.Complains
      ((failures definitions.directives (some source.text) text).map errorReport)
      (exec (enhanceFile source target (.report embed)) before).2.console := by
  have hfound : foundAt source before.tree before.home = .ok () :=
    foundAt_eq_ok_iff.mpr (FileTree.exists_of_readText htext)
  have henhance : enhance definitions (some source.text) (.report embed) text = .ok
      ⟨Page.addSections (Page.substitute definitions.tokens
          (assemble definitions.directives (some source.text) (.report embed) text)),
        failures definitions.directives (some source.text) text⟩ := by
    unfold enhance
    rw [expand_report]
    rfl
  have henhanced := enhancedAt_eq_ok_iff.mpr ⟨text, definitions, htext, hdefinitions, henhance⟩
  rw [enhanceFile_eq, exec_bind, exec_read, hfound]
  dsimp only
  rw [exec_bind, exec_read, henhanced]
  exact (complains_of_publish (Prod.eta _).symm).1

/-- Enhancing a file reports its failures, and counts them if it is done. -/
theorem complains_enhanceInto {folder : Path} {mode : ErrorMode} {result : Except Failure Nat}
    (h : exec (enhanceInto folder source mode) before = (result, after)) :
    ∃ errors : List PlacedError,
      before.console.Complains (errors.map errorReport) after.console ∧
      ∀ count, result = .ok count → count = errors.length ∧ ∃ text definitions,
        before.tree.readText before.home source.route = .ok text ∧
        definitionsAt before.tree before.home definitionsPath = .ok definitions ∧
        errors = failures definitions.directives (some source.text) text := by
  rw [enhanceInto_eq] at h
  rcases (quiet_report rfl).cases h with ⟨failure, rfl, hquiet⟩ | ⟨_, noted, hnoted, hnote, h⟩
  · exact ⟨[], hquiet, fun _ h => (nomatch h)⟩
  obtain rfl := (Prod.mk.inj hnoted).2
  rcases (quiet_read _).cases h with ⟨failure, rfl, hquiet⟩ | ⟨_, found, hfound, -, h⟩
  · exact ⟨[], hnote.trans hquiet, fun _ h => (nomatch h)⟩
  obtain rfl := (Prod.mk.inj ((exec_read _).symm.trans hfound)).2
  rcases (quiet_read _).cases h with ⟨failure, rfl, hquiet⟩ | ⟨expansion, read, hread, -, h⟩
  · exact ⟨[], hnote.trans hquiet, fun _ h => (nomatch h)⟩
  obtain ⟨henhanced, rfl⟩ := Prod.mk.inj ((exec_read _).symm.trans hread)
  obtain ⟨text, definitions, htext, hdefinitions, henhance⟩ := enhancedAt_eq_ok_iff.mp henhanced
  obtain ⟨hreported, hcount⟩ := complains_of_publish h
  refine ⟨expansion.errors, hnote.trans hreported, fun count hresult => ⟨hcount count hresult, ?_⟩⟩
  exact ⟨text, definitions, htext, hdefinitions, errors_of_enhance henhance⟩

/-- Each source has been enhanced in its turn: what was read is what the sources before it left. -/
def ReadInTurn (plan : Plan) (started : Workspace) (enhancements : List Enhancement) : Prop :=
  ∀ first enhancement rest, enhancements = first ++ enhancement :: rest →
    ∃ turn, exec ((first.map (·.source)).forM plan.enhanceStep) started = (.ok ⟨⟩, turn) ∧
      turn.tree.readText turn.home enhancement.source.route = .ok enhancement.text ∧
      definitionsAt turn.tree turn.home definitionsPath = .ok enhancement.definitions

theorem ReadInTurn.cons {middle : Workspace} {text : Text} {definitions : Definitions}
    {enhancements : List Enhancement}
    (htext : before.tree.readText before.home source.route = .ok text)
    (hdefinitions : definitionsAt before.tree before.home definitionsPath = .ok definitions)
    (hstep : exec (plan.enhanceStep source) before = (.ok ⟨⟩, middle))
    (h : ReadInTurn plan middle enhancements) :
    ReadInTurn plan before (⟨source, text, definitions⟩ :: enhancements) := by
  intro first enhancement rest hsplit
  cases first with
  | nil =>
    obtain ⟨rfl, rfl⟩ := List.cons.inj hsplit
    exact ⟨before, rfl, htext, hdefinitions⟩
  | cons earlier first =>
    obtain ⟨rfl, rfl⟩ := List.cons.inj hsplit
    obtain ⟨turn, hturn, hread⟩ := h first enhancement rest rfl
    refine ⟨turn, ?_, hread⟩
    rw [List.map_cons, exec_forM_cons, exec_bind_eq_ok]
    exact ⟨_, middle, hstep, hturn⟩

/-- The sources have been enhanced one after the other, and their failures reported and counted. -/
structure Enhanced (plan : Plan) (sources : List Path) (started : Workspace)
    (errors : List PlacedError) (enhancements : List Enhancement) : Prop where
  sources_eq : enhancements.map (·.source) = sources
  errors_eq : errors = enhancements.flatMap (·.failures)
  readInTurn : ReadInTurn plan started enhancements

/-- Going through sources reports their failures, and counts them if it comes to its end. -/
theorem complains_foldlM {sources : List Path} {total : Nat} {result : Except Failure Nat}
    (h : exec (sources.foldlM (fun errors source =>
      return errors + (← enhanceInto plan.enhanced source plan.mode)) total) before =
        (result, after)) :
    ∃ errors : List PlacedError,
      before.console.Complains (errors.map errorReport) after.console ∧
      ∀ count, result = .ok count → count = total + errors.length ∧
        ∃ enhancements, Enhanced plan sources before errors enhancements := by
  induction sources generalizing before total with
  | nil =>
    obtain ⟨rfl, rfl⟩ := Prod.mk.inj h
    refine ⟨[], .refl _, fun count hcount => ⟨(Except.ok.inj hcount).symm, [], rfl, rfl, ?_⟩⟩
    intro first enhancement rest hsplit
    exact absurd hsplit (by simp)
  | cons source sources ih =>
    rw [List.foldlM_cons, exec_bind, bind_pure_comp, exec_map] at h
    rcases hstep : exec (enhanceInto plan.enhanced source plan.mode) before with
      ⟨failure | number, middle⟩
    · rw [hstep] at h
      obtain ⟨rfl, rfl⟩ := Prod.mk.inj h
      obtain ⟨errors, hreported, -⟩ := complains_enhanceInto hstep
      exact ⟨errors, hreported, fun _ h => (nomatch h)⟩
    · rw [hstep] at h
      obtain ⟨errors, hreported, hcount⟩ := complains_enhanceInto hstep
      obtain ⟨rfl, text, definitions, htext, hdefinitions, rfl⟩ := hcount number rfl
      obtain ⟨later, hlater, hrest⟩ := ih h
      refine ⟨_, List.map_append ▸ hreported.trans hlater, fun count hresult => ?_⟩
      obtain ⟨rfl, enhancements, rfl, rfl, hturns⟩ := hrest count hresult
      refine ⟨?_, ⟨source, text, definitions⟩ :: enhancements, rfl, rfl, ?_⟩
      · rw [List.length_append, Nat.add_assoc]
      · refine .cons htext hdefinitions ?_ hturns
        rw [Plan.enhanceStep, exec_discard, hstep]
        rfl

/-- What the first stage reports: the failures of its sources, and it counts them if it comes to its
end. -/
def Tallied (plan : Plan) (before : Workspace) (result : Except Failure Nat) (after : Workspace) :
    Prop :=
  ∃ errors : List PlacedError,
    before.console.Complains (errors.map errorReport) after.console ∧
    ∀ count, result = .ok count → count = errors.length ∧ ∃ started enhancements,
      Grown (fun _ => False) (· <+: plan.enhanced.parts) before started ∧
      exec ((plan.sources before).forM plan.enhanceStep) started = (.ok ⟨⟩, after) ∧
      Enhanced plan (plan.sources before) started errors enhancements

/-- A stage that makes its folder and then goes through the sources. -/
theorem tallied_of_makeFolders {result : Except Failure Nat} {next : Run Nat}
    (hwf : before.WellFormed) (henhanced : plan.enhanced.Settled)
    (h : exec (makeFolders plan.enhanced >>= fun _ => next) before = (result, after))
    (hnext : ∀ started, exec next started = exec ((plan.sources before).foldlM (fun errors source =>
      return errors + (← enhanceInto plan.enhanced source plan.mode)) 0) started) :
    Tallied plan before result after := by
  rcases (quiet_makeFolders plan.enhanced).cases h with
    ⟨failure, rfl, hquiet⟩ | ⟨_, started, hmakes, hquiet, h⟩
  · exact ⟨[], hquiet, fun _ h => (nomatch h)⟩
  rw [hnext] at h
  obtain ⟨errors, hreported, hcount⟩ := complains_foldlM h
  refine ⟨errors, hquiet.trans hreported, fun count hresult => ?_⟩
  obtain ⟨rfl, enhancements, hsources⟩ := hcount count hresult
  refine ⟨Nat.zero_add _, started, enhancements, ?_, ?_, hsources⟩
  · have hmade := (FileTree.made_of_makeFolders hwf.tree henhanced.proper before.home).1
    rw [← henhanced.eq] at hmade
    rw [exec_makeFolders] at hmakes
    obtain ⟨-, rfl⟩ := Prod.mk.inj hmakes
    exact .of_tree hwf hmade.grows rfl hmade.wellFormed
  · refine (exec_sum (fun source => enhanceInto plan.enhanced source plan.mode)
      (plan.sources before) 0).symm.trans ?_
    rw [exec_discard, h, hresult]
    rfl

theorem tallied_enhanceStage {result : Except Failure Nat} (hwf : before.WellFormed)
    (henhanced : plan.enhanced.Settled) (h : exec plan.enhanceStage before = (result, after)) :
    Tallied plan before result after := by
  have hnone : plan.sources before = [] → ∀ started,
      exec (pure 0 : Run Nat) started = (result, after) →
      Grown (fun _ => False) (· <+: plan.enhanced.parts) before started →
      before.console.Complains [] started.console → Tallied plan before result after := by
    intro hsources started hpure hgrown hquiet
    obtain ⟨rfl, rfl⟩ := Prod.mk.inj hpure
    refine ⟨[], hquiet, fun count hresult =>
      ⟨(Except.ok.inj hresult).symm, started, [], hgrown, ?_⟩⟩
    rw [hsources]
    exact ⟨rfl, rfl, rfl, fun first _ _ hsplit => absurd hsplit (by simp)⟩
  unfold Plan.enhanceStage at h
  split at h
  · rename_i hstages
    have hsources : plan.sources before = sourcesIn plan.source plan.name before := if_pos hstages
    cases hname : plan.name with
    | some name =>
      rw [hname] at h hsources
      dsimp only at h
      rw [enhanceOne_eq] at h
      rcases (quiet_read _).cases h with ⟨failure, rfl, hquiet⟩ | ⟨_, found, hfound, -, h⟩
      · exact ⟨[], hquiet, fun _ h => (nomatch h)⟩
      obtain rfl := (Prod.mk.inj ((exec_read _).symm.trans hfound)).2
      refine tallied_of_makeFolders hwf henhanced h fun started => ?_
      rw [hsources, sourcesIn_some, List.foldlM_cons, exec_bind, bind_pure_comp, exec_map]
      rcases exec (enhanceInto plan.enhanced (plan.source.child (name ++ ".md")) plan.mode) started
        with ⟨failure | count, last⟩
      · rfl
      · show _ = (Except.ok (0 + count), last)
        rw [Nat.zero_add]
    | none =>
      rw [hname] at h hsources
      unfold sourcesIn at hsources
      dsimp only at h hsources
      unfold enhanceAll at h
      rw [exec_bind, exec_listMarkdown] at h
      generalize before.tree.list before.home plan.source ".md" = listed at h hsources
      rcases listed with error | _ | ⟨source, rest⟩
      · obtain ⟨rfl, rfl⟩ := Prod.mk.inj h
        exact ⟨[], .refl _, fun _ h => (nomatch h)⟩
      · exact hnone hsources _ h (.printed hwf _) (before.console.complains_note rfl)
      · refine tallied_of_makeFolders hwf henhanced h fun started => ?_
        rw [hsources]
  · rename_i hstages
    exact hnone (if_neg hstages) before h (.refl hwf) (.refl _)

/-- After the first stage, each source has its enhanced text. -/
theorem Enhanced.written {started : Workspace} {errors : List PlacedError}
    {enhancements : List Enhancement} {enhancement : Enhancement} (hwf : before.WellFormed)
    (hsource : plan.source.Settled) (henhanced : plan.enhanced.Settled)
    (h : Enhanced plan (plan.sources before) started errors enhancements)
    (hstarted : started.WellFormed)
    (hexec : exec ((plan.sources before).forM plan.enhanceStep) started = (.ok ⟨⟩, after))
    (hmem : enhancement ∈ enhancements) :
    ∃ expansion,
      enhance enhancement.definitions (some enhancement.source.text) plan.mode enhancement.text =
        .ok expansion ∧
      after.tree.get? (plan.enhanced.parts ++ [enhancement.source.name]) =
        some (.file (Utf8.encode expansion.text)) ∧
      (Path.ofLocation (plan.enhanced.parts ++ [enhancement.source.name])).Fits := by
  obtain ⟨first, rest, rfl⟩ := List.append_of_mem hmem
  have hsources := h.sources_eq
  rw [List.map_append, List.map_cons] at hsources
  obtain ⟨middle, text, hfirst, -, ⟨written, definitions, expansion, hread, hdefinitions, henhance,
      rfl⟩, hwritten, hfits⟩ :=
    enhanced_of_forM hwf hsource henhanced hsources.symm hstarted hexec
  -- the source was read in its turn, and there is only one turn
  obtain ⟨turn, hturn, htext, hdefined⟩ := h.readInTurn first enhancement rest rfl
  obtain rfl := (Prod.mk.inj (hfirst.symm.trans hturn)).2
  obtain rfl := Except.ok.inj (hread.symm.trans htext)
  obtain rfl := Except.ok.inj (hdefinitions.symm.trans hdefined)
  exact ⟨expansion, henhance, hwritten, hfits⟩

/-! ## The second stage -/

/-- The report that there is nothing to render. -/
def noPages (folder : Path) : Report where
  level := .error
  message := "[build] No .md files found in: " ++ folder.text

/-- All files are to be rendered, and there are none. -/
def Plan.RendersNothing (plan : Plan) (workspace : Workspace) : Prop :=
  plan.stages.renders = true ∧ plan.name = none ∧
    workspace.tree.list workspace.home plan.enhanced ".md" = .ok []

theorem quiet_renderPage (convert : Text → Text) (shell : Shell) (folder source : Path) :
    Quiet (renderPage convert shell folder source) := by
  rw [renderPage_eq]
  refine (quiet_read _).bind fun _ => (quiet_report rfl).bind fun _ => ?_
  exact (quiet_read _).bind fun _ => (quiet_publish _ _).bind fun _ => quiet_pure _

/-- That there is nothing to render is reported as an error, but the stage does not fail. -/
theorem exec_renderStage_of_none {convert : Text → Text} (h : plan.RendersNothing before) :
    exec (plan.renderStage convert) before =
      (.ok ⟨⟩, { before with console := before.console.report (noPages plan.enhanced) }) := by
  obtain ⟨hstages, hname, hnone⟩ := h
  unfold Plan.renderStage renderAll
  rw [if_pos hstages, hname]
  dsimp only
  rw [exec_bind, exec_listMarkdown, hnone]
  rfl

/-- If there is something to render, the second stage reports no errors. -/
theorem complains_renderStage (convert : Text → Text) (h : ¬ plan.RendersNothing before) :
    before.console.Complains [] (exec (plan.renderStage convert) before).2.console := by
  unfold Plan.renderStage
  split
  · rename_i hstages
    cases hname : plan.name with
    | some name => exact (quiet_renderPage _ _ _ _).discard before
    | none =>
      unfold renderAll
      dsimp only
      rw [exec_bind, exec_listMarkdown]
      rcases hlisted : before.tree.list before.home plan.enhanced ".md" with
        error | _ | ⟨source, rest⟩
      · exact .refl _
      · exact absurd ⟨hstages, hname, hlisted⟩ h
      · exact Quiet.forM (fun source => (quiet_renderPage _ _ _ _).discard) (source :: rest) before
  · exact .refl _

end Build

end Folio
