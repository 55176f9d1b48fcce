import Folio.Proofs.Build.Steps
import Folio.Proofs.Command.Build

/-!
# A build is the composition of its stages

The two stages of a build hand texts to each other through files. If the folders are apart from each
other and from the other files that are read, nothing that is written for one page is read for
another, and the text that the second stage reads is the one that the first stage computed: it
holds no carriage return, so writing and reading it changes nothing.

Main result: `run_composes`.
-/

namespace Folio.Command.Build

open Folio.Build FileTree Workspace Run Watch Directive

variable {τ : Type} {request : Request} {before middle after : Workspace} {settings : Settings}
  {plan : Plan} {arguments : Arguments}

/-! ## Separate folders -/

/-- The locations of the files that a build reads for every page. -/
inductive IsInput (plan : Plan) (tree : FileTree) (home : Location) : Location → Prop
  | template : IsInput plan tree home plan.shell.template.parts
  | definitions : IsInput plan tree home (definitionsPath.resolve home)
  | included {text written : Text}
      (read : tree.readText home definitionsPath.route = .ok text)
      (named : written ∈ Definitions.includes text) :
      IsInput plan tree home (includedAt home written)

/-- What a stage reads is apart from the folders that this stage and those before it write. -/
structure Separate (plan : Plan) (tree : FileTree) (home : Location) : Prop where
  sourceEnhanced : Location.Apart plan.source.parts plan.enhanced.parts
  enhancedSite : Location.Apart plan.enhanced.parts plan.site.parts
  inputs : ∀ location, IsInput plan tree home location → location.Apart plan.enhanced.parts
  templateSite : Location.Apart plan.shell.template.parts plan.site.parts

/-! ## Names of pages -/

theorem stem_md {name : Text} (h : name ≠ []) (folder : Location) :
    (Path.ofLocation (folder ++ [name ++ (".md" : Text)])).stem = name := by
  rw [stem_of_name Path.name_ofLocation, if_neg h]

/-- A later file has another page, since its stem is another one. -/
theorem pageName_ne {folder : Location} {name later : Text} (hname : name ≠ [])
    (hending : (".md" : Text) <:+ later) (hlt : name ++ (".md" : Text) < later) :
    pageName (.ofLocation (folder ++ [later])) ≠
      pageName (.ofLocation (folder ++ [name ++ (".md" : Text)])) := by
  intro hsame
  have hnames := fun hpage hlater hlt => names_of_pageName_eq hpage hlater hlt hsame.symm
  simp only [Path.name_ofLocation] at hnames
  obtain ⟨hmd, -⟩ := hnames (List.suffix_append _ _) hending hlt
  exact hname (List.append_left_eq_self.mp hmd)

/-! ## The two stages -/

/-- The definitions are those of the beginning as long as nothing but a folder that is apart from
them has changed. -/
theorem definitionsAt_of_grown {folder : Location} {target : Path → Text} {sources : List Path}
    (hwf : before.WellFormed)
    (hgrown : Grown (IsTarget folder target sources) (· <+: folder) before after)
    (hinputs : ∀ location, IsInput plan before.tree before.home location → location.Apart folder)
    {definitions : Definitions}
    (h : definitionsAt after.tree after.home definitionsPath = .ok definitions) :
    definitionsAt before.tree before.home definitionsPath = .ok definitions := by
  rw [hgrown.home] at h
  refine definitionsAt_congr hwf.tree hgrown.wellFormed.tree hwf.home_proper ?_ ?_ h
  · exact get?_of_apart hgrown (hinputs _ .definitions)
  · intro text hread written hnamed
    exact get?_of_apart hgrown (hinputs _ (.included hread hnamed))

/-- The first stage leaves the enhanced text of every source, computed from what was there at the
beginning. -/
theorem enhanced_of_enhanceStage (hwf : before.WellFormed)
    (hplanned : Planned request settings plan)
    (hstages : plan.stages = .both) (hall : plan.name = none)
    (hseparate : Separate plan before.tree before.home) (hsource : plan.source.Fits) {errors : Nat}
    (h : exec plan.enhanceStage before = (.ok errors, after)) {name : Text} {content : ByteArray}
    (hfile : before.tree.get? (plan.source.parts ++ [name ++ (".md" : Text)]) =
      some (.file content)) :
    ∃ decoded definitions expansion,
      Utf8.decode content = .ok decoded ∧
      definitionsAt before.tree before.home definitionsPath = .ok definitions ∧
      expand definitions.directives
        (some (Path.ofLocation (plan.source.parts ++ [name ++ (".md" : Text)])).text) plan.mode
        decoded.normalizeBreaks = .ok expansion ∧
      after.tree.get? (plan.enhanced.parts ++ [name ++ (".md" : Text)]) =
        some (.file (Utf8.encode
          (Page.addSections (Page.substitute definitions.tokens expansion.text)))) ∧
      (Path.ofLocation (plan.enhanced.parts ++ [name ++ (".md" : Text)])).Fits := by
  have hsome : (before.tree.get? (plan.source.parts ++ [name ++ (".md" : Text)])).isSome := by
    rw [hfile]
    rfl
  have hsources : plan.sources before = (before.tree.namesWith plan.source.parts ".md").map
      fun name => Path.ofLocation (plan.source.parts ++ [name]) := by
    rw [sources_of_both hstages, hall]
    exact sourcesIn_folder hwf hplanned.source hsource hsome
  obtain ⟨found, text, hgrown, ⟨written, definitions, enhanced, hread, hdefinitions, henhance, rfl⟩,
      hwritten, hfits⟩ :=
    (swept_enhanceStage hwf hplanned.enhanced h).produced
      (fun _ hmem => isProducer_enhanceStep hwf hplanned.source hplanned.enhanced hmem) hsources
      (pairwise_namesWith _ _ _) (mem_namesWith.mpr ⟨hsome, List.suffix_append _ _⟩)
      fun later _ hlt => by
        rw [Path.name_ofLocation, Path.name_ofLocation]
        exact ne_of_gt hlt
  rw [Path.name_ofLocation] at hwritten hfits
  -- the source and the definitions are read as they were at the beginning
  have hproper : Location.Proper (plan.source.parts ++ [name ++ (".md" : Text)]) :=
    hwf.tree.proper _ hsome
  obtain ⟨_, decoded, hcontent, hdecoded, rfl⟩ :=
    of_readText_ofLocation hgrown.wellFormed.tree hproper hread
  rw [get?_of_apart hgrown (hseparate.sourceEnhanced.inside _), hfile] at hcontent
  obtain rfl := Entry.file.inj (Option.some.inj hcontent)
  have hdefinitions' := definitionsAt_of_grown hwf hgrown hseparate.inputs hdefinitions
  obtain ⟨expansion, hexpand, htext⟩ := exists_of_enhance henhance
  rw [htext] at hwritten
  exact ⟨decoded, definitions, expansion, hdecoded, hdefinitions', hexpand, hwritten, hfits⟩

/-- The second stage leaves the page of every enhanced text, read back as it was written. -/
theorem page_of_renderStage {convert : Text → Text} (hwf : before.WellFormed)
    (hplanned : Planned request settings plan) (hstages : plan.stages = .both)
    (hall : plan.name = none) (hapart : Location.Apart plan.enhanced.parts plan.site.parts)
    (htemplate : Location.Apart plan.shell.template.parts plan.site.parts)
    (h : exec (plan.renderStage convert) before = (.ok ⟨⟩, after)) {name text : Text}
    (hname : name ≠ []) (hreturn : '\r' ∉ text)
    (hfile : before.tree.get? (plan.enhanced.parts ++ [name ++ (".md" : Text)]) =
      some (.file (Utf8.encode text)))
    (hfits : (Path.ofLocation (plan.enhanced.parts ++ [name ++ (".md" : Text)])).Fits) :
    ∃ template,
      templateAt before.tree before.home plan.shell.template = .ok template ∧
      after.tree.get? (plan.site.parts ++ [name ++ (".html" : Text)]) =
        some (.file (Utf8.encode (Page.Document.render {
          title := Page.title name text
          css := settings .css
          devJs := settings .devJs
          body := convert text } template))) := by
  have hsome : (before.tree.get? (plan.enhanced.parts ++ [name ++ (".md" : Text)])).isSome := by
    rw [hfile]
    rfl
  have hpages : plan.pages before = (before.tree.namesWith plan.enhanced.parts ".md").map
      fun name => Path.ofLocation (plan.enhanced.parts ++ [name]) := by
    rw [pages_of_both hstages, hall]
    exact sourcesIn_folder hwf hplanned.enhanced (hplanned.enhanced.eq ▸ hfits.above) hsome
  obtain ⟨found, page, hgrown, ⟨written, hread, hwrap⟩, hwritten, -⟩ :=
    (swept_renderStage hwf hplanned.site h).produced
      (fun _ hmem => isProducer_renderStep convert hwf hplanned.enhanced hplanned.site hmem) hpages
      (pairwise_namesWith _ _ _) (mem_namesWith.mpr ⟨hsome, List.suffix_append _ _⟩)
      fun later hlater hlt => pageName_ne hname (mem_namesWith.mp hlater).2 hlt
  have hproper : Location.Proper (plan.enhanced.parts ++ [name ++ (".md" : Text)]) :=
    hwf.tree.proper _ hsome
  have hkept := get?_of_apart hgrown (hapart.inside (name ++ (".md" : Text)))
  obtain rfl : written = text :=
    readText_written hgrown.wellFormed.tree hproper hreturn (hkept.trans hfile) hread
  unfold pageName at hwritten
  rw [stem_md hname] at hwritten hwrap
  obtain ⟨template, hfound, rfl⟩ := exists_of_wrap hplanned.css hplanned.devJs hwrap
  rw [hgrown.home] at hfound
  exact ⟨template, templateAt_congr hwf.tree hgrown.wellFormed.tree hplanned.template
    (get?_of_apart hgrown htemplate) hfound, hwritten⟩

/-! ## Both stages -/

/-- What is left of a source after both stages: its enhanced text and its page, computed from what
was in the tree before. -/
def Composed (convert : Text → Text) (settings : Settings) (plan : Plan) (tree : FileTree)
    (home : Location) (after : FileTree) (name : Text) (content : ByteArray) : Prop :=
  ∃ decoded definitions expansion template,
    Utf8.decode content = .ok decoded ∧
    definitionsAt tree home definitionsPath = .ok definitions ∧
    expand definitions.directives
      (some (Path.ofLocation (plan.source.parts ++ [name ++ (".md" : Text)])).text) .strict
      decoded.normalizeBreaks = .ok expansion ∧
    templateAt tree home plan.shell.template = .ok template ∧
    let enhanced := Page.addSections (Page.substitute definitions.tokens expansion.text)
    after.file? (plan.enhanced.parts ++ [name ++ (".md" : Text)]) =
      some (Utf8.encode enhanced) ∧
    after.file? (plan.site.parts ++ [name ++ (".html" : Text)]) =
      some (Utf8.encode (Page.Document.render {
        title := Page.title name enhanced
        css := settings .css
        devJs := settings .devJs
        body := convert enhanced } template))

theorem composed_of_run {convert : Text → Text} (hwf : before.WellFormed)
    (hplanned : Planned request settings plan) (hstages : plan.stages = .both)
    (hall : plan.name = none) (hmode : plan.mode = .strict)
    (hseparate : Separate plan before.tree before.home) (hsource : plan.source.Fits) {errors : Nat}
    (h : exec (plan.run convert) before = (.ok errors, after)) {name : Text} {content : ByteArray}
    (hname : name ≠ [])
    (hfile : before.tree.file? (plan.source.parts ++ [name ++ (".md" : Text)]) = some content) :
    Composed convert settings plan before.tree before.home after.tree name content := by
  rw [Plan.run_eq, exec_bind_eq_ok] at h
  obtain ⟨_, middle, henhance, h⟩ := h
  obtain ⟨_, _, hrender, hlast⟩ := exec_bind_eq_ok.mp h
  obtain ⟨-, rfl⟩ := Prod.mk.inj hlast
  obtain ⟨decoded, definitions, expansion, hdecoded, hdefinitions, hexpand, hwritten, hfits⟩ :=
    enhanced_of_enhanceStage hwf hplanned hstages hall hseparate hsource henhance
      (file?_eq_some_iff.mp hfile)
  have hfirst := enhanceStage_grown hwf hplanned.source hplanned.enhanced henhance
  have hsecond := renderStage_grown hfirst.wellFormed hplanned.enhanced hplanned.site hrender
  obtain ⟨template, htemplate, hpage⟩ :=
    page_of_renderStage hfirst.wellFormed hplanned hstages hall hseparate.enhancedSite
      hseparate.templateSite hrender hname (Page.not_mem_addSections _) hwritten hfits
  rw [hmode] at hexpand
  rw [hfirst.home] at htemplate
  refine ⟨decoded, definitions, expansion, template, hdecoded, hdefinitions, hexpand, ?_, ?_, ?_⟩
  · exact templateAt_congr hwf.tree hfirst.wellFormed.tree hplanned.template
      (get?_of_apart hfirst (hseparate.inputs _ .template)) htemplate
  · rw [file?_eq_some_iff, get?_of_apart hsecond (hseparate.enhancedSite.inside _)]
    exact hwritten
  · exact file?_eq_some_iff.mpr hpage

/-- The arguments ask for both stages of all pages, once, up to the first failure. -/
structure Full (arguments : Arguments) : Prop where
  once : arguments.has "watch" = false
  enhances : arguments.has "render-only" = false
  renders : arguments.has "preprocess-only" = false
  strict : arguments.has "continue-on-error" = false
  all : ∀ name ∈ arguments.name, name = []

theorem Full.stages (h : Full arguments) : (requestOf arguments).stages = .both := by
  unfold requestOf stagesOf
  dsimp only
  rw [h.enhances, h.renders]
  rfl

theorem Full.mode (h : Full arguments) : (requestOf arguments).mode = .strict := by
  unfold requestOf
  dsimp only
  rw [h.strict]
  rfl

theorem Full.name (h : Full arguments) : (requestOf arguments).name.filter (· ≠ []) = none := by
  rw [Option.filter_eq_none_iff]
  intro name hname
  simp [h.all name hname]

/-- **A build without failures is the composition of its stages.** -/
theorem run_composes {texts : List Text} (environment : Environment) (start : Debounce τ)
    (hwf : before.WellFormed) (hparse : grammar.parse texts = .ok arguments)
    (hfull : Full arguments)
    (hrun : (exec (run environment start texts) before).1 = .ok (.finished 0)) :
    ∃ settings plan, IsPlan (requestOf arguments) before settings plan ∧
      (Separate plan before.tree before.home → ∀ name content, name ≠ [] →
        before.tree.file? (plan.source.parts ++ [name ++ (".md" : Text)]) = some content →
        Composed environment.convert settings plan before.tree before.home
          (exec (run environment start texts) before).2.tree name content) := by
  rcases run_cases environment hparse hfull.once start before with
    ⟨settings, plan, result, carried, hplan, hcarried, hcode, htree⟩ | ⟨hcode, -⟩
  · refine ⟨settings, plan, hplan, fun hseparate name content hname hfile => ?_⟩
    have hplanned := planned_of_plan hwf hplan.planned
    obtain ⟨entry, hentry⟩ := hplan.sourceFound
    have hsource := ((lookAt_eq_some_iff hwf.tree hplanned.source.proper).mp hentry).1
    rw [hcode] at hrun
    rcases result with failure | _ | errors
    · cases hrun
    · rw [htree]
      exact composed_of_run (wellFormed_prepared hwf) hplanned (hplanned.stages.trans hfull.stages)
        (hplanned.name.trans hfull.name) (hplanned.mode.trans hfull.mode) hseparate hsource
        hcarried hname hfile
    · cases hrun
  · cases hcode 0 hrun

/-- A book with one source, one definition that is included, and lines that end with carriage
returns. -/
def smallBook : Workspace where
  home := []
  tree := ⟨[
    (["tools"], .folder),
    (["tools", "build.conf"],
      .file (Utf8.encode "src_dir=s\npreprocess_dir=e\nbuild_dir=b\ntemplate=t\n")),
    (["tools", "preprocess.conf"], .file (Utf8.encode "[[A]] = @file:a\n")),
    (["tools", "a"], .file (Utf8.encode "u\r\nv")),
    (["t"], .file (Utf8.encode "\x7b\x7btitle\x7d\x7d: \x7b\x7bbody\x7d\x7d")),
    (["s"], .folder),
    (["s", "x.md"], .file (Utf8.encode "# b\r\n[[A]]"))]⟩

/-- The plan of the small book. -/
def smallPlan : Plan where
  name := none
  stages := .both
  mode := .strict
  source := .ofLocation ["s"]
  enhanced := .ofLocation ["e"]
  site := .ofLocation ["b"]
  shell := {
    css := some (Setting.default .css)
    devJs := some (Setting.default .devJs)
    template := .ofLocation ["t"] }

theorem separate_smallPlan : Separate smallPlan smallBook.tree smallBook.home := by
  refine ⟨by decide, by decide, ?_, by decide⟩
  rintro location (_ | _ | ⟨hread, hnamed⟩)
  · decide
  · decide
  · have htext : smallBook.tree.readText smallBook.home definitionsPath.route =
        .ok "[[A]] = @file:a\n" := by decide +kernel
    obtain rfl := Except.ok.inj (hread.symm.trans htext)
    have hincludes : Definitions.includes "[[A]] = @file:a\n" = [("a" : Text)] := by decide +kernel
    rw [hincludes, List.mem_singleton] at hnamed
    rw [hnamed]
    decide

theorem run_composes_smallBook :
    ∃ settings, IsPlan (requestOf {}) smallBook settings smallPlan ∧
      Separate smallPlan smallBook.tree smallBook.home ∧
      Composed id settings smallPlan smallBook.tree smallBook.home
        (exec (run ⟨id, .ready⟩ (⟨0, 0⟩ : Debounce Nat) []) smallBook).2.tree "x"
        (Utf8.encode "# b\r\n[[A]]") := by
  have hwf : smallBook.WellFormed := by decide
  obtain ⟨settings, plan, hplan, hcomposed⟩ :=
    run_composes ⟨id, .ready⟩ (⟨0, 0⟩ : Debounce Nat) hwf (by rfl : grammar.parse [] = .ok {})
      ⟨by decide, by decide, by decide, by decide, by decide⟩ (by decide +kernel)
  have hsmall : ((requestOf {}).settings smallBook.tree smallBook.home).map
      ((requestOf {}).plan smallBook.home) = .ok (.ok smallPlan) := by decide +kernel
  rw [hplan.settled] at hsmall
  obtain rfl : plan = smallPlan :=
    Except.ok.inj (hplan.planned.symm.trans (Except.ok.inj hsmall))
  exact ⟨settings, hplan, separate_smallPlan,
    hcomposed separate_smallPlan "x" _ (by decide) (by decide +kernel)⟩

end Folio.Command.Build
