import Folio.Proofs.Build.Endings
import Folio.Proofs.Command.Composition
import Folio.Proofs.Command.ExitCode

/-!
# Builds that go on after failures

A build that goes on after failures reports each line that fails in one line of the error stream,
file by file and line by line, and at the end their number if there are any; the exit code tells
whether there were. Every source still has its enhanced text, and every enhanced file has a page
that is made from it. Main result: `failures_accounted`.

The page of a source is not always its own: `.md` and `.md.md` have one page between them, and a
name with a slash can lead out of the folder of the enhanced texts (`not_page_for_each_source`).
-/

namespace Folio.Command.Build

open Folio.Build FileTree Workspace Run Watch Directive Text

variable {τ : Type} {request : Request} {before middle after : Workspace} {settings : Settings}
  {plan : Plan} {arguments : Arguments} {enhancement : Enhancement}

/-! ## The error stream -/

/-- The lines that report the lines of a source that fail: the path and the number of the line,
counted from one, and what is wrong. -/
def errorLines (enhancement : Enhancement) : List Text :=
  (enhancement.text.lines.zipIdx 1).filterMap fun (line, number) =>
    match lineOutcome enhancement.definitions.directives line with
    | .failed cause => some (("[preprocess] ERROR " : Text) ++ enhancement.source.text ++ ":" ++
        Text.ofNat number ++ ": " ++ cause.message)
    | _ => none

/-- The lines of a source that fail. -/
def failing (enhancement : Enhancement) : List Text :=
  enhancement.text.lines.filter (fails enhancement.definitions.directives)

/-- The report of how many lines have failed, if any have. -/
def conclusion (count : Nat) : List Report :=
  if count = 0 then []
  else [{ level := .error, message := Text.ofNat count ++ " error(s) during preprocess" }]

theorem errorLines_eq (enhancement : Enhancement) :
    errorLines enhancement = enhancement.failures.map fun error =>
      ("[preprocess] ERROR " : Text) ++ error.message := by
  unfold errorLines Enhancement.failures failures
  rw [List.map_filterMap]
  refine List.filterMap_congr fun numbered _ => ?_
  dsimp only
  rw [failure?_eq]
  cases lineOutcome enhancement.definitions.directives numbered.1 with
  | kept => rfl
  | replaced ls => rfl
  | failed cause =>
    unfold PlacedError.message placeOf
    simp only [Option.map_some, List.append_assoc]

theorem length_flatMap_failures (enhancements : List Enhancement) :
    (enhancements.flatMap (·.failures)).length = (enhancements.flatMap failing).length := by
  induction enhancements with
  | nil => rfl
  | cons enhancement enhancements ih =>
    have hfirst : enhancement.failures.length = (failing enhancement).length := by
      rw [failing, ← List.countP_eq_length_filter]
      exact length_failures _ _ _
    rw [List.flatMap_cons, List.flatMap_cons, List.length_append, List.length_append, hfirst, ih]

theorem line_conclusion (count : Nat) :
    Report.line { level := .error, message := Text.ofNat count ++ " error(s) during preprocess" } =
      ("[build] ERROR: " : Text) ++ Text.ofNat count ++ " error(s) during preprocess" := by
  have hlabel : ("[build]" ++ " " ++ Level.error.word ++ ": " : Text) = "[build] ERROR: " := by
    decide
  unfold Report.line Report.dropPlace
  dsimp only
  rw [hlabel, List.append_assoc]

/-- The lines of the error stream: those of the failures, and one that counts them. -/
theorem lines_of_accounted (console : Console) {enhancements : List Enhancement}
    (hnames : ∀ enhancement ∈ enhancements,
      ∀ definition ∈ enhancement.definitions.directives, definition.NamesSingleLine)
    (hpaths : ∀ enhancement ∈ enhancements, SingleLine enhancement.source.text) (count : Nat) :
    Text.lines (((enhancements.flatMap (·.failures)).map errorReport ++ conclusion count).flatMap
        console.complaintOf) =
      (enhancements.flatMap errorLines ++
        if count = 0 then []
        else [("[build] ERROR: " : Text) ++ Text.ofNat count ++ " error(s) during preprocess"]).map
          console.shown := by
  have hfailure : ∀ error ∈ enhancements.flatMap (·.failures),
      error.place ≠ [] ∧ SingleLine (("[preprocess] ERROR " : Text) ++ error.message) := by
    intro error herror
    obtain ⟨enhancement, hmem, herror⟩ := List.mem_flatMap.mp herror
    refine ⟨place_of_mem_failures herror, singleLine_of_mem_failures (hnames _ hmem) ?_ herror⟩
    rintro path ⟨⟩
    exact hpaths enhancement hmem
  have hreports : ((enhancements.flatMap (·.failures)).map errorReport).map (·.line) =
      enhancements.flatMap errorLines := by
    rw [List.map_map, funext errorLines_eq, ← List.map_flatMap]
    exact List.map_congr_left fun error herror => line_errorReport (hfailure error herror).1
  rw [console.lines_flatMap_complaintOf]
  · rw [List.map_append, hreports]
    unfold conclusion
    split
    · rfl
    · rw [List.map_singleton, line_conclusion]
  · intro report hreport
    rcases List.mem_append.mp hreport with hreport | hreport
    · obtain ⟨error, -, rfl⟩ := List.mem_map.mp hreport
      rfl
    · unfold conclusion at hreport
      split at hreport
      · cases hreport
      · rw [List.mem_singleton.mp hreport]
  · intro report hreport
    rcases List.mem_append.mp hreport with hreport | hreport
    · obtain ⟨error, herror, rfl⟩ := List.mem_map.mp hreport
      rw [line_errorReport (hfailure error herror).1]
      exact (hfailure error herror).2
    · unfold conclusion at hreport
      split at hreport
      · cases hreport
      · rw [List.mem_singleton.mp hreport, line_conclusion]
        exact ((singleLine_literal (by decide)).append (singleLine_ofNat count)).append
          (singleLine_literal (by decide))

/-! ## What is read -/

section Read

variable {started : Workspace} {errors : List PlacedError} {enhancements : List Enhancement}

/-- When its turn comes, only sources before it have been enhanced. -/
theorem turn_of_mem (hwf : before.WellFormed) (hplanned : Planned request settings plan)
    (hstarted : Grown (fun _ => False) (· <+: plan.enhanced.parts) before started)
    (h : Enhanced plan (plan.sources before) started errors enhancements)
    (hmem : enhancement ∈ enhancements) :
    ∃ first turn, (∀ earlier ∈ first, earlier ∈ plan.sources before ∧
        earlier.name < enhancement.source.name) ∧
      Grown (IsTarget plan.enhanced.parts Path.name first) (· <+: plan.enhanced.parts) before turn ∧
      turn.tree.readText turn.home enhancement.source.route = .ok enhancement.text ∧
      definitionsAt turn.tree turn.home definitionsPath = .ok enhancement.definitions := by
  obtain ⟨first, rest, rfl⟩ := List.append_of_mem hmem
  obtain ⟨turn, hturn, htext, hdefinitions⟩ := h.readInTurn first enhancement rest rfl
  have hsources := h.sources_eq
  rw [List.map_append, List.map_cons] at hsources
  have hordered : (plan.sources before).Pairwise (·.name < ·.name) :=
    pairwise_sources hplanned.source
  have hearlier : ∀ earlier ∈ first.map (·.source), earlier ∈ plan.sources before := by
    intro earlier hearlier
    rw [← hsources]
    exact List.mem_append_left _ hearlier
  have hgrown : Grown (IsTarget plan.enhanced.parts Path.name (first.map (·.source)))
      (· <+: plan.enhanced.parts) started turn :=
    grown_of_forM (fun earlier hmem => isProducer_enhanceStep hwf hplanned.source hplanned.enhanced
      (hearlier earlier hmem)) hstarted.wellFormed hturn
  refine ⟨first.map (·.source), turn, ?_, ?_, htext, hdefinitions⟩
  · intro earlier hmem
    rw [← hsources] at hordered
    exact ⟨hearlier earlier hmem,
      (List.pairwise_append.mp hordered).2.2 earlier hmem _ List.mem_cons_self⟩
  · exact (hstarted.mono (fun _ hfile => hfile.elim) fun _ h => h).trans hgrown

/-- The only source that is asked for is there before anything is done. -/
theorem found_of_enhanceStage {count : Nat} {name : Text} (hname : plan.name = some name)
    (hstages : plan.stages.enhances = true)
    (h : exec plan.enhanceStage before = (.ok count, after)) :
    ∃ entry, before.tree.lookAt before.home (plan.source.child (name ++ ".md")).route =
      .ok (some entry) := by
  unfold Plan.enhanceStage at h
  rw [if_pos hstages, hname] at h
  dsimp only at h
  rw [enhanceOne_eq, exec_bind_eq_ok] at h
  obtain ⟨_, _, hfound, -⟩ := h
  rw [exec_read] at hfound
  exact foundAt_eq_ok_iff.mp (Prod.mk.inj hfound).1

/-- A source is read as it was at the beginning. -/
theorem text_of_enhanceStage {count : Nat} (hwf : before.WellFormed)
    (hplanned : Planned request settings plan)
    (hapart : Location.Apart plan.source.parts plan.enhanced.parts)
    (hstage : exec plan.enhanceStage before = (.ok count, after))
    (hstarted : Grown (fun _ => False) (· <+: plan.enhanced.parts) before started)
    (h : Enhanced plan (plan.sources before) started errors enhancements)
    (hmem : enhancement ∈ enhancements) :
    before.tree.readText before.home enhancement.source.route = .ok enhancement.text := by
  obtain ⟨first, turn, hfirst, hgrown, htext, -⟩ := turn_of_mem hwf hplanned hstarted h hmem
  have hsource : enhancement.source ∈ plan.sources before :=
    h.sources_eq ▸ List.mem_map_of_mem hmem
  obtain ⟨hstages, -⟩ := of_mem_sources hwf hplanned.source hsource
  unfold Plan.sources at hsource hfirst
  rw [if_pos hstages] at hsource hfirst
  rw [hgrown.home] at htext
  cases hname : plan.name with
  | some name =>
    -- the path may lead anywhere, but it is the first source, so nothing has been written
    rw [hname, sourcesIn_some] at hsource hfirst
    obtain ⟨entry, hfound⟩ := found_of_enhanceStage hname hstages hstage
    rw [← List.mem_singleton.mp hsource] at hfound
    refine (readText_of_grows hgrown.tree hfound ?_).symm.trans htext
    rintro place - ⟨earlier, hearlier, -⟩
    obtain ⟨hsame, hlt⟩ := hfirst earlier hearlier
    rw [List.mem_singleton.mp hsame, List.mem_singleton.mp hsource] at hlt
    exact lt_irrefl _ hlt
  | none =>
    rw [hname, hplanned.source.eq] at hsource
    rcases sourcesIn_none hplanned.source.proper with hnone | hlisted
    · rw [hnone] at hsource
      cases hsource
    · rw [hlisted] at hsource
      obtain ⟨name, hname, hsame⟩ := List.mem_map.mp hsource
      have hproper : Location.Proper (plan.source.parts ++ [name]) :=
        hwf.tree.proper _ (mem_namesWith.mp hname).1
      have hnames : ∀ part ∈ (Path.ofLocation (plan.source.parts ++ [name])).parts, IsName part :=
        hproper
      rw [← hsame] at htext ⊢
      refine readText_congr hwf.tree hgrown.wellFormed.tree hnames ?_ htext
      rw [Path.resolve_ofLocation hproper]
      exact get?_of_apart hgrown (hapart.inside name)

end Read

/-! ## Pages -/

/-- Several files may have the same page; the last one of them is the one that counts. -/
theorem exists_last {pages : List Path} {page : Path} (hmem : page ∈ pages) :
    ∃ first last rest, pages = first ++ last :: rest ∧ pageName last = pageName page ∧
      (∀ later ∈ rest, pageName later ≠ pageName page) ∧ (page = last ∨ page ∈ first) := by
  have hsome : (pages.reverse.find? (pageName · == pageName page)).isSome :=
    List.find?_isSome.mpr ⟨page, List.mem_reverse.mpr hmem, by simp⟩
  obtain ⟨last, hlast⟩ := Option.isSome_iff_exists.mp hsome
  obtain ⟨hname, rest, first, hsplit, hnone⟩ := List.find?_eq_some_iff_append.mp hlast
  have hpages : pages = first.reverse ++ last :: rest.reverse := by
    simpa using congrArg List.reverse hsplit
  have hlater : ∀ later ∈ rest.reverse, pageName later ≠ pageName page := by
    intro later hlater
    simpa using hnone later (List.mem_reverse.mp hlater)
  refine ⟨first.reverse, last, rest.reverse, hpages, by simpa using hname, hlater, ?_⟩
  rw [hpages, List.mem_append, List.mem_cons] at hmem
  rcases hmem with hfirst | rfl | hrest
  · exact .inr hfirst
  · exact .inl rfl
  · exact absurd rfl (hlater page hrest)

/-- After the second stage, each file that was there has a page. It is the one of a later file if
that has the same page. -/
theorem page_of_mem_pages {convert : Text → Text} (hwf : before.WellFormed)
    (hplanned : Planned request settings plan)
    (h : exec (plan.renderStage convert) before = (.ok ⟨⟩, after)) {page : Path}
    (hmem : page ∈ plan.pages before) :
    ∃ last found text, pageName last = pageName page ∧
      (page = last ∨ page.name < last.name ∧ last ∈ plan.pages before) ∧
      Grown (IsTarget plan.site.parts pageName (plan.pages before)) (· <+: plan.site.parts) before
        found ∧
      PageText convert plan.shell last found.tree found.home text ∧
      after.tree.get? (plan.site.parts ++ [pageName page]) = some (.file (Utf8.encode text)) := by
  have hordered : (plan.pages before).Pairwise (·.name < ·.name) :=
    pairwise_pages hplanned.enhanced
  obtain ⟨first, last, rest, hpages, hname, hlater, hplace⟩ := exists_last hmem
  cases swept_renderStage hwf hplanned.site h with
  | swept hprepared hexec =>
    have hproducers : ∀ other ∈ plan.pages before,
        IsProducer (PageText convert plan.shell other) plan.site.parts (pageName other)
          (plan.renderStep convert other) :=
      fun _ hother => isProducer_renderStep convert hwf hplanned.enhanced hplanned.site hother
    rw [hpages] at hexec hproducers
    obtain ⟨found, text, -, hgrown, hcomputed, hwritten, -⟩ :=
      produced_of_forM hproducers hprepared.wellFormed hexec
        fun other hother hsame => hlater other hother (hsame.trans hname)
    rw [hname] at hwritten
    refine ⟨last, found, text, hname, ?_, ?_, hcomputed, hwritten⟩
    · rcases hplace with rfl | hfirst
      · exact .inl rfl
      · rw [hpages] at hordered ⊢
        exact .inr ⟨(List.pairwise_append.mp hordered).2.2 page hfirst last List.mem_cons_self,
          by simp⟩
    · refine (hprepared.mono (fun _ hfile => hfile.elim) fun _ h => h).trans
        (hgrown.mono ?_ fun _ h => h)
      rintro location ⟨other, hother, hlocation⟩
      rw [hpages]
      exact ⟨other, List.mem_append_left _ hother, hlocation⟩

/-- The file is rendered under the name of its page, from the given text, and no other file after
it. It is rendered when others have been. -/
def HasPage (convert : Text → Text) (plan : Plan) (middle : Workspace) (page : Path)
    (written : Text) (after : Workspace) : Prop :=
  ∃ (found : Workspace) (text : Text),
    Grown (IsTarget plan.site.parts pageName (plan.pages middle)) (· <+: plan.site.parts) middle
      found ∧
    found.tree.readText found.home page.route = .ok written ∧
    plan.shell.wrap found.tree found.home (Page.title page.stem written) (convert written) =
      .ok text ∧
    after.tree.file? (plan.site.parts ++ [pageName page]) = some (Utf8.encode text)

/-- The name of the file is nothing but the ending, and the other file with the same page is
rendered after it. -/
def Overwritten (plan : Plan) (middle : Workspace) (page : Path) : Prop :=
  page.name = (".md" : Text) ∧ ∃ other ∈ plan.pages middle, other.name = (".md.md" : Text)

theorem hasPage_of_mem_pages {convert : Text → Text} (hwf : middle.WellFormed)
    (hplanned : Planned request settings plan)
    (h : exec (plan.renderStage convert) middle = (.ok ⟨⟩, after)) {page : Path}
    (hmem : page ∈ plan.pages middle) (hown : ¬ Overwritten plan middle page) :
    ∃ written, HasPage convert plan middle page written after := by
  obtain ⟨last, found, text, hsame, hplace, hgrown, ⟨written, hread, hwrap⟩, hfile⟩ :=
    page_of_mem_pages hwf hplanned h hmem
  obtain rfl : page = last := by
    rcases hplace with hlast | ⟨hlt, hlater⟩
    · exact hlast
    · obtain ⟨-, front, -, hfront⟩ := of_mem_pages hwf hplanned.enhanced hmem
      obtain ⟨-, other, -, hother⟩ := of_mem_pages hwf hplanned.enhanced hlater
      obtain ⟨hname, hlast⟩ :=
        names_of_pageName_eq ⟨front, hfront.symm⟩ ⟨other, hother.symm⟩ hlt hsame.symm
      exact absurd ⟨hname, last, hlater, hlast⟩ hown
  exact ⟨written, found, text, hgrown, hread, hwrap, file?_eq_some_iff.mpr hfile⟩

/-- The enhanced text of a source is rendered, unless the name asked for leads elsewhere. -/
theorem mem_pages_of_mem_sources {count : Nat} (hwf : before.WellFormed)
    (hplanned : Planned request settings plan) (hrenders : plan.stages.renders = true)
    (hslash : ∀ name ∈ plan.name, '/' ∉ name)
    (hstage : exec plan.enhanceStage before = (.ok count, middle)) {source : Path}
    (hmem : source ∈ plan.sources before) :
    Path.ofLocation (plan.enhanced.parts ++ [source.name]) ∈ plan.pages middle := by
  obtain ⟨hstages, -⟩ := of_mem_sources hwf hplanned.source hmem
  unfold Plan.pages
  rw [if_pos hrenders]
  cases hname : plan.name with
  | some name =>
    unfold Plan.sources at hmem
    rw [if_pos hstages, hname, sourcesIn_some] at hmem
    rw [List.mem_singleton.mp hmem, sourcesIn_some, child_md hplanned.enhanced (hslash name hname),
      child_md hplanned.source (hslash name hname), Path.name_ofLocation]
    exact List.mem_singleton_self _
  | none => exact listed_of_enhanceStage hwf hplanned hstage hmem

/-- Each source has its own page after both stages, unless another one has the same. -/
theorem hasPage_of_run {convert : Text → Text} {count : Nat} {enhanced : Text}
    (hwf : before.WellFormed) (hplanned : Planned request settings plan)
    (hapart : Location.Apart plan.enhanced.parts plan.site.parts)
    (hrenders : plan.stages.renders = true) (hslash : ∀ name ∈ plan.name, '/' ∉ name)
    (hstage : exec plan.enhanceStage before = (.ok count, middle))
    (hrender : exec (plan.renderStage convert) middle = (.ok ⟨⟩, after))
    (hmem : enhancement.source ∈ plan.sources before) (hreturn : '\r' ∉ enhanced)
    (hwritten : middle.tree.get? (plan.enhanced.parts ++ [enhancement.source.name]) =
      some (.file (Utf8.encode enhanced)))
    (hown : ¬ Overwritten plan middle enhancement.source) :
    HasPage convert plan middle (.ofLocation (plan.enhanced.parts ++ [enhancement.source.name]))
      enhanced after := by
  have hmiddle := (enhanceStage_grown hwf hplanned.source hplanned.enhanced hstage).wellFormed
  have hpage := mem_pages_of_mem_sources hwf hplanned hrenders hslash hstage hmem
  obtain ⟨written, found, text, hgrown, hread, hwrap, hfile⟩ :=
    hasPage_of_mem_pages hmiddle hplanned hrender hpage (by rwa [Overwritten, Path.name_ofLocation])
  obtain ⟨-, front, hfront, hending⟩ := of_mem_sources hwf hplanned.source hmem
  have hproper : Location.Proper (plan.enhanced.parts ++ [enhancement.source.name]) :=
    hplanned.enhanced.proper.snoc (hending ▸ isEnding_md.isName hfront)
  obtain rfl : written = enhanced := readText_written hgrown.wellFormed.tree hproper hreturn
    ((get?_of_apart hgrown (hapart.inside _)).trans hwritten) hread
  exact ⟨found, text, hgrown, hread, hwrap, hfile⟩

/-! ## The accounts -/

/-- The accounts of a build that has come to its end: `enhancements` are its sources with what was
read for them, and `middle` is the workspace after the first stage. -/
structure Accounted (environment : Environment) (plan : Plan) (before middle : Workspace)
    (enhancements : List Enhancement) (result : Except Failure (Progress τ)) (after : Workspace) :
    Prop where
  sources_eq : enhancements.map (·.source) = plan.sources before
  ordered : (plan.sources before).Pairwise (·.name < ·.name)
  /-- The sources are read as they were at the beginning. -/
  text : ∀ enhancement ∈ enhancements,
    before.tree.readText before.home enhancement.source.route = .ok enhancement.text
  /-- The definitions are read for each source, after those before it have been enhanced. -/
  inTurn : ∃ started, Grown (fun _ => False) (· <+: plan.enhanced.parts) before started ∧
    ReadInTurn plan started enhancements
  /-- They are those at the beginning if nothing that they include is an enhanced text. -/
  definitions : (∀ location, IsInput plan before.tree before.home location →
      location.Apart plan.enhanced.parts) → ∀ enhancement ∈ enhancements,
    definitionsAt before.tree before.home definitionsPath = .ok enhancement.definitions
  reports : before.console.Complains ((enhancements.flatMap (·.failures)).map errorReport ++
    conclusion (enhancements.flatMap failing).length) after.console
  /-- What is printed on the error stream has one line for each line that fails, in order, and one
  that counts them if there are any. They are emphasised where the terminal can show it. -/
  lines : ∃ printed, after.console.err = before.console.err ++ printed ∧
    Text.lines printed = (enhancements.flatMap errorLines ++
      if (enhancements.flatMap failing).length = 0 then []
      else [("[build] ERROR: " : Text) ++ Text.ofNat (enhancements.flatMap failing).length ++
        " error(s) during preprocess"]).map before.console.shown
  /-- There are as many as lines that fail. -/
  count : (enhancements.flatMap errorLines).length = (enhancements.flatMap failing).length
  code : result = .ok (.finished (if (enhancements.flatMap failing).length = 0 then 0 else 1))
  /-- Every source has its enhanced text, and its page if pages are rendered, made from that text,
  unless the name asked for leads elsewhere or the other file with that page is rendered too. -/
  outputs : ∀ enhancement ∈ enhancements, ∃ expansion,
    enhance enhancement.definitions (some enhancement.source.text) plan.mode enhancement.text =
      .ok expansion ∧
    after.tree.file? (plan.enhanced.parts ++ [enhancement.source.name]) =
      some (Utf8.encode expansion.text) ∧
    (plan.stages.renders = true → (∀ name ∈ plan.name, '/' ∉ name) →
      ¬ Overwritten plan middle enhancement.source →
      HasPage environment.convert plan middle
        (.ofLocation (plan.enhanced.parts ++ [enhancement.source.name])) expansion.text after)
  /-- All files that are rendered have their pages, but for one that is overwritten. -/
  pages : ∀ page ∈ plan.pages middle, ¬ Overwritten plan middle page →
    ∃ written, HasPage environment.convert plan middle page written after

/-- A build that goes on is carried out to its end if nothing but directives goes wrong. -/
theorem exists_exec_run {convert : Text → Text} {workspace : Workspace} {embed : Bool}
    (hmode : plan.mode = .report embed)
    (h : ∀ failure, (exec (plan.run convert) workspace).1 = .error failure →
      ∃ error, failure = .directive error) :
    ∃ count carried, exec (plan.run convert) workspace = (.ok count, carried) := by
  have hfails := failsWith_run hmode convert workspace
  generalize exec (plan.run convert) workspace = ended at h hfails ⊢
  obtain ⟨failure | count, carried⟩ := ended
  · obtain ⟨error, rfl⟩ := h failure rfl
    exact absurd rfl (hfails _ rfl error)
  · exact ⟨count, carried, rfl⟩

theorem complains_concluded_ok (console : Console) (count : Nat) :
    console.Complains (conclusion count) (concluded console (.ok count)) := by
  cases count with
  | zero => exact .refl _
  | succ count => exact console.complains_reportAll fun _ h => by rw [List.mem_singleton.mp h]

theorem exitCode_ok (count : Nat) : exitCode (.ok count) = if count = 0 then 0 else 1 := by
  cases count <;> rfl

theorem length_errorLines (enhancements : List Enhancement) :
    (enhancements.flatMap errorLines).length = (enhancements.flatMap failing).length := by
  rw [funext errorLines_eq, ← List.map_flatMap, List.length_map, length_flatMap_failures]

/-- Where there are sources, there is something to render after the first stage. -/
theorem not_rendersNothing {count : Nat} (hwf : before.WellFormed)
    (hplanned : Planned request settings plan) (hsources : plan.sources before ≠ [])
    (hstage : exec plan.enhanceStage before = (.ok count, middle)) :
    ¬ plan.RendersNothing middle := by
  intro hnothing
  obtain ⟨⟨-, hname, -⟩, hnone⟩ := (rendersNothing_iff hwf hplanned hstage).mp hnothing
  refine hsources ?_
  unfold Plan.sources
  split
  · rename_i hstages
    unfold sourcesIn
    rw [hname, hnone hstages]
  · rfl

/-- The outputs of the sources, when both stages have come to their end. -/
theorem outputs_of_stages {convert : Text → Text} {count : Nat} {started : Workspace}
    {errors : List PlacedError} {enhancements : List Enhancement} (hwf : before.WellFormed)
    (hplanned : Planned request settings plan)
    (hapart : Location.Apart plan.enhanced.parts plan.site.parts)
    (hstage : exec plan.enhanceStage before = (.ok count, middle))
    (hrender : exec (plan.renderStage convert) middle = (.ok ⟨⟩, after))
    (hstarted : started.WellFormed)
    (hexec : exec ((plan.sources before).forM plan.enhanceStep) started = (.ok ⟨⟩, middle))
    (h : Enhanced plan (plan.sources before) started errors enhancements)
    (hmem : enhancement ∈ enhancements) :
    ∃ expansion,
      enhance enhancement.definitions (some enhancement.source.text) plan.mode enhancement.text =
        .ok expansion ∧
      after.tree.file? (plan.enhanced.parts ++ [enhancement.source.name]) =
        some (Utf8.encode expansion.text) ∧
      (plan.stages.renders = true → (∀ name ∈ plan.name, '/' ∉ name) →
        ¬ Overwritten plan middle enhancement.source →
        HasPage convert plan middle
          (.ofLocation (plan.enhanced.parts ++ [enhancement.source.name]))
            expansion.text after) := by
  have hmiddle := (enhanceStage_grown hwf hplanned.source hplanned.enhanced hstage).wellFormed
  have hafter := renderStage_grown hmiddle hplanned.enhanced hplanned.site hrender
  have hsource : enhancement.source ∈ plan.sources before :=
    h.sources_eq ▸ List.mem_map_of_mem hmem
  obtain ⟨expansion, henhance, hwritten, -⟩ :=
    h.written hwf hplanned.source hplanned.enhanced hstarted hexec hmem
  refine ⟨expansion, henhance, file?_eq_some_iff.mpr ?_, fun hrenders hslash => ?_⟩
  · exact (get?_of_apart hafter (hapart.inside _)).trans hwritten
  · exact hasPage_of_run hwf hplanned hapart hrenders hslash hstage hrender hsource
      (not_mem_of_enhance henhance) hwritten

/-- A build of a plan with sources, none of which has a line break in its path, that goes on after
failures and in which nothing but directives goes wrong. -/
structure GoesOn (environment : Environment) (arguments : Arguments) (before : Workspace)
    (settings : Settings) (plan : Plan) : Prop where
  ends : arguments.has "watch" = false
  continues : arguments.has "continue-on-error" = true
  starts : environment.watching ≠ .missing
  isPlan : IsPlan (requestOf arguments) before settings plan
  sourceEnhanced : Location.Apart plan.source.parts plan.enhanced.parts
  enhancedSite : Location.Apart plan.enhanced.parts plan.site.parts
  sources : plan.sources before ≠ []
  paths : ∀ source ∈ plan.sources before, SingleLine source.text
  fails : ∀ failure,
    (exec (plan.run environment.convert) (prepared arguments before)).1 = .error failure →
    ∃ error, failure = .directive error

/-- **Failures are accounted for**, in a build that goes on after them. -/
theorem failures_accounted {texts : List Text} {environment : Environment} (start : Debounce τ)
    (hwf : before.WellFormed) (hparse : grammar.parse texts = .ok arguments)
    (h : GoesOn environment arguments before settings plan) :
    ∃ middle enhancements,
      exec plan.enhanceStage (prepared arguments before) =
        (.ok (enhancements.flatMap failing).length, middle) ∧
      Accounted environment plan before middle enhancements
        (exec (run environment start texts) before).1
        (exec (run environment start texts) before).2 := by
  obtain ⟨hwatch, hcontinue, hstart, hplan, hsourceEnhanced, henhancedSite, hsources, hpaths,
    hfails⟩ := h
  have hplanned := planned_of_plan hwf hplan.planned
  have hwf' : (prepared arguments before).WellFormed := wellFormed_prepared hwf
  have hmode : plan.mode = .report (arguments.has "embed-errors") := by
    rw [hplanned.mode]
    exact if_pos hcontinue
  obtain ⟨count, _, hrun⟩ := exists_exec_run hmode hfails
  have hstages := hrun
  rw [Plan.run_eq, exec_bind_eq_ok] at hstages
  obtain ⟨_, middle, hstage, hstages⟩ := hstages
  obtain ⟨⟨⟩, carried, hrender, hlast⟩ := exec_bind_eq_ok.mp hstages
  obtain ⟨hcount, rfl⟩ := Prod.mk.inj hlast
  obtain rfl := Except.ok.inj hcount
  obtain ⟨errors, hreported, hcounted⟩ := tallied_enhanceStage hwf' hplanned.enhanced hstage
  obtain ⟨rfl, started, enhancements, hstarted, hexec, henhanced⟩ := hcounted _ rfl
  have hnumber : errors.length = (enhancements.flatMap failing).length := by
    rw [henhanced.errors_eq, length_flatMap_failures]
  rw [hnumber] at hrun hstage
  have hsame := henhanced.sources_eq
  -- the second stage is quiet, and the conclusion comes last
  have hquiet := complains_renderStage environment.convert
    (not_rendersNothing hwf' hplanned hsources hstage)
  rw [hrender] at hquiet
  have hreports : before.console.Complains ((enhancements.flatMap (·.failures)).map errorReport ++
      conclusion (enhancements.flatMap failing).length)
      (concluded carried.console (.ok (enhancements.flatMap failing).length)) := by
    rw [← henhanced.errors_eq]
    have hall := ((complains_prepared arguments before).trans (hreported.trans hquiet)).trans
      (complains_concluded_ok carried.console (enhancements.flatMap failing).length)
    rwa [List.nil_append, List.append_nil] at hall
  have htext : ∀ enhancement ∈ enhancements, (prepared arguments before).tree.readText
      (prepared arguments before).home enhancement.source.route = .ok enhancement.text :=
    fun _ => text_of_enhanceStage hwf' hplanned hsourceEnhanced hstage hstarted henhanced
  have houtputs := fun enhancement (hmem : enhancement ∈ enhancements) =>
    outputs_of_stages hwf' hplanned henhancedSite hstage hrender hstarted.wellFormed hexec
      henhanced hmem
  rw [exec_run_of_isPlan hstart hparse hwatch hplan start, exec_execute, hrun]
  refine ⟨middle, enhancements, hstage, {
    sources_eq := hsame
    ordered := pairwise_sources hplanned.source
    text := htext
    inTurn := ⟨started, ⟨hstarted.wellFormed, hstarted.home, hstarted.tree⟩, henhanced.readInTurn⟩
    definitions := ?_
    reports := hreports
    lines := ?_
    count := length_errorLines enhancements
    code := by rw [exitCode_ok]
    outputs := houtputs
    pages := fun _ => hasPage_of_mem_pages
      (enhanceStage_grown hwf' hplanned.source hplanned.enhanced hstage).wellFormed hplanned
      hrender }⟩
  · intro hinputs enhancement hmem
    obtain ⟨first, turn, -, hgrown, -, hdefinitions⟩ :=
      turn_of_mem hwf' hplanned hstarted henhanced hmem
    exact definitionsAt_of_grown hwf' hgrown hinputs hdefinitions
  · refine ⟨_, hreports.err, lines_of_accounted before.console ?_ ?_ _⟩
    · intro enhancement hmem
      obtain ⟨first, turn, -, -, -, hdefinitions⟩ :=
        turn_of_mem hwf' hplanned hstarted henhanced hmem
      exact namesSingleLine_of_definitionsAt hdefinitions
    · intro enhancement hmem
      exact hpaths _ (hsame ▸ List.mem_map_of_mem hmem)

theorem failures_accounted_faultyBook :
    (exec (run ⟨id, .ready⟩ (⟨0, 0⟩ : Debounce Nat) ["-c"]) faultyBook).2.console.err =
        ("[preprocess] ERROR /s/a.md:2: missing required arg(s) for note: body\n" ++
          "[preprocess] ERROR /s/b.md:1: missing required arg(s) for note: body\n" ++
          "[build] ERROR: 2 error(s) during preprocess\n" : Text) ∧
      ∃ middle enhancements,
        exec (Plan.enhanceStage { smallPlan with mode := .report false })
            (prepared { given := ["continue-on-error"] } faultyBook) =
          (.ok (enhancements.flatMap failing).length, middle) ∧
        Accounted ⟨id, .ready⟩ { smallPlan with mode := .report false } faultyBook middle
          enhancements (exec (run ⟨id, .ready⟩ (⟨0, 0⟩ : Debounce Nat) ["-c"]) faultyBook).1
          (exec (run ⟨id, .ready⟩ (⟨0, 0⟩ : Debounce Nat) ["-c"]) faultyBook).2 := by
  have hplan : ((requestOf { given := ["continue-on-error"] }).settings faultyBook.tree
      faultyBook.home).map ((requestOf { given := ["continue-on-error"] }).plan faultyBook.home) =
        .ok (.ok { smallPlan with mode := .report false }) := by decide +kernel
  obtain ⟨settings, hsettled, hplanned⟩ := map_eq_ok_iff.mp hplan
  have hrun : (exec (Plan.run { smallPlan with mode := .report false } id)
      (prepared { given := ["continue-on-error"] } faultyBook)).1 = .ok 2 := by decide +kernel
  have hgoesOn : GoesOn ⟨id, .ready⟩ { given := ["continue-on-error"] } faultyBook settings
      { smallPlan with mode := .report false } := by
    refine ⟨by decide, by decide, by decide, ⟨hsettled, hplanned, .folder, by decide +kernel⟩,
      by decide, by decide, by decide +kernel, by decide +kernel, fun failure hfailure => ?_⟩
    rw [hrun] at hfailure
    cases hfailure
  exact ⟨by decide +kernel, failures_accounted (⟨0, 0⟩ : Debounce Nat) (by decide)
    (by decide +kernel) hgoesOn⟩

/-- A file has the page that its text makes, as long as nothing that is read for it changes. -/
theorem file_of_hasPage {convert : Text → Text} {name written text template css devJs : Text}
    (hwf : middle.WellFormed) (hcss : plan.shell.css = some css)
    (hdevJs : plan.shell.devJs = some devJs) (hsettled : plan.shell.template.Settled)
    (hapart : Location.Apart plan.enhanced.parts plan.site.parts)
    (htemplate : Location.Apart plan.shell.template.parts plan.site.parts)
    (hread : templateAt middle.tree middle.home plan.shell.template = .ok template)
    (hreturn : '\r' ∉ text)
    (hfile : middle.tree.get? (plan.enhanced.parts ++ [name]) = some (.file (Utf8.encode text)))
    (h : HasPage convert plan middle (.ofLocation (plan.enhanced.parts ++ [name])) written after) :
    after.tree.file?
        (plan.site.parts ++ [pageName (.ofLocation (plan.enhanced.parts ++ [name]))]) =
      some (Utf8.encode (Page.Document.render {
        title := Page.title (Path.ofLocation (plan.enhanced.parts ++ [name])).stem text
        css, devJs, body := convert text } template)) := by
  obtain ⟨found, page, hgrown, hwritten, hwrap, hpage⟩ := h
  have hproper : Location.Proper (plan.enhanced.parts ++ [name]) :=
    hwf.tree.proper _ (by rw [hfile]; rfl)
  obtain rfl : written = text := readText_written hgrown.wellFormed.tree hproper hreturn
    ((get?_of_apart hgrown (hapart.inside _)).trans hfile) hwritten
  obtain ⟨other, hfound, rfl⟩ := exists_of_wrap hcss hdevJs hwrap
  rw [hgrown.home] at hfound
  have hsame := templateAt_congr hwf.tree hgrown.wellFormed.tree hsettled
    (get?_of_apart hgrown htemplate) hfound
  rw [hpage, Except.ok.inj (hsame.symm.trans hread)]

/-- A book with two sources that have one page, and a third one. -/
def twinBook : Workspace where
  home := []
  tree := ⟨[
    (["tools"], .folder),
    (["tools", "build.conf"],
      .file (Utf8.encode "src_dir=s\npreprocess_dir=e\nbuild_dir=b\ntemplate=t\n")),
    (["t"], .file (Utf8.encode "\x7b\x7bbody\x7d\x7d")),
    (["s"], .folder),
    (["s", ".md"], .file (Utf8.encode "x")),
    (["s", ".md.md"], .file (Utf8.encode "y")),
    (["s", "z.md"], .file (Utf8.encode "z"))]⟩

def goOn (name : Option Text) : Arguments where
  given := ["continue-on-error"]
  name := name

def goOnPlan (name : Option Text) : Plan := { smallPlan with mode := .report false, name := name }

theorem exists_goesOn_twinBook {name : Option Text}
    (hplan : ((requestOf (goOn name)).settings twinBook.tree twinBook.home).map
      ((requestOf (goOn name)).plan twinBook.home) = .ok (.ok (goOnPlan name)))
    (hsources : (goOnPlan name).sources twinBook ≠ [])
    (hpaths : ∀ source ∈ (goOnPlan name).sources twinBook, SingleLine source.text)
    (hrun : (exec ((goOnPlan name).run id) (prepared (goOn name) twinBook)).1 = .ok 0) :
    ∃ settings, GoesOn ⟨id, .ready⟩ (goOn name) twinBook settings (goOnPlan name) := by
  obtain ⟨settings, hsettled, hplanned⟩ := map_eq_ok_iff.mp hplan
  refine ⟨settings, rfl, rfl, by decide, ⟨hsettled, hplanned, .folder, rfl⟩,
    (by decide : Location.Apart ["s"] ["e"]), (by decide : Location.Apart ["e"] ["b"]), hsources,
    hpaths, fun failure hfailure => ?_⟩
  rw [hrun] at hfailure
  cases hfailure

/-- The template of the book is nothing but the body. -/
theorem not_hasPage_twinBook {name : Option Text} {middle after : Workspace} {file text : Text}
    (hwf : middle.WellFormed) (hsettled : (goOnPlan name).shell.template.Settled)
    (hread : templateAt middle.tree middle.home (goOnPlan name).shell.template =
      .ok "\x7b\x7bbody\x7d\x7d") (hreturn : '\r' ∉ text)
    (hfile : middle.tree.get? ((goOnPlan name).enhanced.parts ++ [file]) =
      some (.file (Utf8.encode text)))
    (hother : after.tree.file? ((goOnPlan name).site.parts ++
        [pageName (.ofLocation ((goOnPlan name).enhanced.parts ++ [file]))]) ≠
      some (Utf8.encode (Page.Document.render {
        title := Page.title (Path.ofLocation ((goOnPlan name).enhanced.parts ++ [file])).stem text
        css := Setting.default .css
        devJs := Setting.default .devJs
        body := text } "\x7b\x7bbody\x7d\x7d"))) (written : Text) :
    ¬ HasPage id (goOnPlan name) middle (.ofLocation ((goOnPlan name).enhanced.parts ++ [file]))
      written after := by
  intro hpage
  have hmade := file_of_hasPage hwf rfl rfl hsettled (by decide : Location.Apart ["e"] ["b"])
    (by decide : Location.Apart ["t"] ["b"]) hread hreturn hfile hpage
  exact hother hmade

theorem wellFormed_enhanceStage_twinBook {name : Option Text}
    (hplanned : Planned request settings (goOnPlan name)) :
    (exec (goOnPlan name).enhanceStage (prepared (goOn name) twinBook)).2.WellFormed := by
  have hwf : (prepared (goOn name) twinBook).WellFormed := wellFormed_prepared (by decide)
  rcases h : exec (goOnPlan name).enhanceStage
    (prepared (goOn name) twinBook) with ⟨counted, middle⟩
  exact (enhanceStage_grown hwf hplanned.source hplanned.enhanced h).wellFormed

/-- **A source can be left without a page of its own.** The page of the first source is overwritten
with that of the second one, and a name that leads through the folder of the sources has its page
made from the source itself. -/
theorem not_page_for_each_source :
    twinBook.WellFormed ∧ grammar.parse ["-c"] = .ok (goOn none) ∧
      grammar.parse ["-c", "../s/z"] = .ok (goOn (some "../s/z")) ∧
      (∃ settings, GoesOn ⟨id, .ready⟩ (goOn none) twinBook settings (goOnPlan none)) ∧
      ((goOnPlan none).sources twinBook).map (·.name) = [".md", ".md.md", "z.md"] ∧
      (∀ written, ¬ HasPage id (goOnPlan none)
        (exec (goOnPlan none).enhanceStage (prepared (goOn none) twinBook)).2
        (.ofLocation ["e", ".md"]) written
        (exec (run ⟨id, .ready⟩ (⟨0, 0⟩ : Debounce Nat) ["-c"]) twinBook).2) ∧
      (∃ settings, GoesOn ⟨id, .ready⟩ (goOn (some "../s/z")) twinBook settings
        (goOnPlan (some "../s/z"))) ∧
      ((goOnPlan (some "../s/z")).sources twinBook).map (·.name) = ["z.md"] ∧
      ∀ written, ¬ HasPage id (goOnPlan (some "../s/z"))
        (exec (goOnPlan (some "../s/z")).enhanceStage
          (prepared (goOn (some "../s/z")) twinBook)).2
        (.ofLocation ["e", "z.md"]) written
        (exec (run ⟨id, .ready⟩ (⟨0, 0⟩ : Debounce Nat) ["-c", "../s/z"]) twinBook).2 := by
  have hwf : twinBook.WellFormed := by decide
  obtain ⟨settings, hall⟩ : ∃ settings,
      GoesOn ⟨id, .ready⟩ (goOn none) twinBook settings (goOnPlan none) :=
    exists_goesOn_twinBook (by decide +kernel) (by decide) (by decide +kernel) (by decide +kernel)
  obtain ⟨settings', hone⟩ : ∃ settings, GoesOn ⟨id, .ready⟩ (goOn (some "../s/z")) twinBook
      settings (goOnPlan (some "../s/z")) :=
    exists_goesOn_twinBook (by decide +kernel) (by decide) (by decide +kernel) (by decide +kernel)
  refine ⟨hwf, by decide +kernel, by decide +kernel, ⟨settings, hall⟩, by decide, ?_,
    ⟨settings', hone⟩, by decide, ?_⟩
  · have hplanned := planned_of_plan hwf hall.isPlan.planned
    exact not_hasPage_twinBook (wellFormed_enhanceStage_twinBook hplanned) hplanned.template
      (by decide +kernel) (by decide : '\r' ∉ Page.addSections "x") (by decide +kernel)
      (by decide +kernel)
  · have hplanned := planned_of_plan hwf hone.isPlan.planned
    exact not_hasPage_twinBook (wellFormed_enhanceStage_twinBook hplanned) hplanned.template
      (by decide +kernel) (by decide : '\r' ∉ Page.addSections "z") (by decide +kernel)
      (by decide +kernel)

end Folio.Command.Build
