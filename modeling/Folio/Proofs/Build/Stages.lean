import Folio.Build.Plan
import Folio.Proofs.Build.Producer

/-!
# The two stages of a build

Carrying out a plan is its enhancing stage and then its rendering stage (`Plan.run_eq`). Each stage
finds the files that it goes through, prepares its folder, and takes one step for each file
(`swept_enhanceStage`, `swept_renderStage`). The steps of both stages write one file each, under the
name of the source and under its stem with the ending of pages (`isProducer_enhanceInto`,
`isProducer_renderPage`).
-/

namespace Folio.Build

open Workspace Run FileTree Directive

variable {folder : Location} {source : Path} {before after : Workspace}

/-! ## The steps -/

/-- The text that the enhancing stage computes for a source. -/
def EnhancedText (mode : ErrorMode) (source : Path) (tree : FileTree) (home : Location)
    (text : Text) : Prop :=
  ∃ written definitions expansion,
    tree.readText home source.route = .ok written ∧
    definitionsAt tree home definitionsPath = .ok definitions ∧
    enhance definitions (some source.text) mode written = .ok expansion ∧
    text = expansion.text

/-- The text that the rendering stage computes for a page. -/
def PageText (convert : Text → Text) (shell : Shell) (source : Path) (tree : FileTree)
    (home : Location) (text : Text) : Prop :=
  ∃ written, tree.readText home source.route = .ok written ∧
    shell.wrap tree home (Page.title source.stem written) (convert written) = .ok text

/-- The name of the page of a Markdown file. -/
def pageName (source : Path) : Text := source.stem ++ ".html"

theorem isEnding_md : Path.IsEnding ".md" := ⟨by decide, by decide⟩

theorem isEnding_html : Path.IsEnding ".html" := ⟨by decide, by decide⟩

theorem child_md {path : Path} {name : Text} (hsettled : path.Settled) (hname : '/' ∉ name) :
    path.child (name ++ (".md" : Text)) =
      Path.ofLocation (path.parts ++ [name ++ (".md" : Text)]) := by
  rw [← Path.child_ofLocation (isEnding_md.isName hname), ← hsettled.eq]

theorem stem_of_name {page : Path} {front : Text} (h : page.name = front ++ (".md" : Text)) :
    page.stem = if front = [] then (".md" : Text) else front := by
  unfold Path.stem
  rw [h]
  split_ifs with hfront
  · rw [hfront]
    decide
  · exact congrArg Prod.fst (Path.splitName_snoc hfront (by decide) (by decide))

/-- The only two Markdown files with one page: the name that is nothing but the ending is its own
stem. -/
theorem names_of_pageName_eq {page later : Path} (hpage : (".md" : Text) <:+ page.name)
    (hlater : (".md" : Text) <:+ later.name) (hlt : page.name < later.name)
    (h : pageName page = pageName later) :
    page.name = (".md" : Text) ∧ later.name = (".md.md" : Text) := by
  obtain ⟨front, hfront⟩ := hpage
  obtain ⟨other, hother⟩ := hlater
  have hstem := List.append_cancel_right h
  rw [stem_of_name hfront.symm, stem_of_name hother.symm] at hstem
  rw [← hfront, ← hother] at hlt ⊢
  split_ifs at hstem with hempty hothers hothers
  · rw [hempty, hothers] at hlt
    exact absurd hlt (lt_irrefl _)
  · rw [hempty, ← hstem]
    exact ⟨rfl, rfl⟩
  · rw [hstem, hothers] at hlt
    exact absurd hlt (by decide)
  · rw [hstem] at hlt
    exact absurd hlt (lt_irrefl _)

theorem isName_pageName (h : '/' ∉ source.name) : IsName (pageName source) :=
  isEnding_html.isName fun hslash => h (Path.mem_of_mem_splitName hslash)

/-- Enhancing a file writes its enhanced text under its name. -/
theorem isProducer_enhanceInto (mode : ErrorMode) (hfolder : folder.Proper)
    (hname : IsName source.name) :
    IsProducer (EnhancedText mode source) folder source.name
      (discard (enhanceInto (Path.ofLocation folder) source mode)) := by
  refine isProducer_of_publishes hfolder hname fun home tree => ?_
  unfold enhanceInto enhanceFile
  rw [Path.child_ofLocation hname]
  refine .report _ (.pathExists source fun found => ?_)
  cases found with
  | false => exact .throw _ _
  | true =>
    refine .readText source fun written hwritten => .get fun _ => ?_
    refine .ofExcept id _ fun definitions hdefinitions => ?_
    refine .ofExcept Failure.directive _ fun expansion hexpansion => ?_
    refine .reportAll _ (.publish ?_ _)
    exact ⟨written, definitions, expansion, hwritten, hdefinitions, hexpansion, rfl⟩

/-- Rendering a file writes its page under its stem with the ending of pages. -/
theorem isProducer_renderPage (convert : Text → Text) (shell : Shell) (hfolder : folder.Proper)
    (hname : '/' ∉ source.name) :
    IsProducer (PageText convert shell source) folder (pageName source)
      (discard (renderPage convert shell (Path.ofLocation folder) source)) := by
  refine isProducer_of_publishes hfolder (isName_pageName hname) fun home tree => ?_
  unfold renderPage
  refine .pathExists source fun found => ?_
  cases found with
  | false => exact .throw _ _
  | true =>
    rw [show source.stem ++ (".html" : Text) = pageName source from rfl,
      Path.child_ofLocation (isName_pageName hname)]
    refine .report _ (.readText source fun written hwritten => .get fun _ => ?_)
    refine .ofExcept id _ fun page hpage => .publish ?_ _
    exact ⟨written, hwritten, hpage⟩

/-! ## The files of a stage -/

/-- The Markdown files of a folder that a stage goes through: the one with the given name, or all
that are listed. -/
def sourcesIn (folder : Path) (name : Option Text) (workspace : Workspace) : List Path :=
  match name with
  | some name => [folder.child (name ++ ".md")]
  | none =>
    match workspace.tree.list workspace.home folder ".md" with
    | .ok paths => paths
    | .error _ => []

theorem sourcesIn_some (path : Path) (name : Text) :
    sourcesIn path (some name) before = [path.child (name ++ ".md")] := rfl

theorem sourcesIn_none (hproper : folder.Proper) :
    sourcesIn (Path.ofLocation folder) none before = [] ∨
      sourcesIn (Path.ofLocation folder) none before =
        (before.tree.namesWith folder ".md").map fun name =>
          Path.ofLocation (folder ++ [name]) := by
  unfold sourcesIn
  dsimp only
  split
  · rename_i paths hpaths
    exact of_list hproper hpaths
  · exact .inl rfl

/-- A folder that has an entry is gone through. -/
theorem sourcesIn_folder (hwf : before.WellFormed) {path : Path} (hsettled : path.Settled)
    (hfits : path.Fits) {name : Text} (hsome : (before.tree.get? (path.parts ++ [name])).isSome) :
    sourcesIn path none before =
      (before.tree.namesWith path.parts ".md").map fun name =>
        Path.ofLocation (path.parts ++ [name]) := by
  obtain ⟨heq, hproper⟩ := hsettled
  have hfolder := hwf.tree.folder_above (List.cons_ne_nil name []) hsome
  generalize path.parts = folder at heq hproper hfolder
  subst heq
  unfold sourcesIn
  dsimp only
  rw [list_eq_ok hwf.tree hproper hfits hfolder]

/-- The files have names with the ending of Markdown files. -/
theorem exists_name_of_mem_sourcesIn (hwf : before.WellFormed) (hproper : folder.Proper)
    {name : Option Text} (h : source ∈ sourcesIn (Path.ofLocation folder) name before) :
    ∃ front, '/' ∉ front ∧ source.name = front ++ (".md" : Text) := by
  cases name with
  | some name =>
    obtain rfl := List.mem_singleton.mp h
    obtain ⟨front, hfront, hname⟩ := Path.exists_name_child isEnding_md name
    exact ⟨front, hfront, hname _⟩
  | none =>
    rcases sourcesIn_none hproper with hnone | hlisted
    · rw [hnone] at h
      cases h
    · rw [hlisted] at h
      obtain ⟨name, hname, rfl⟩ := List.mem_map.mp h
      obtain ⟨hsome, front, hfront⟩ := mem_namesWith.mp hname
      have hslash := (hwf.tree.proper _ hsome name (by simp)).noSlash
      refine ⟨front, fun hmem => hslash ?_, ?_⟩
      · rw [← hfront]
        exact List.mem_append_left _ hmem
      · rw [Path.name_ofLocation, hfront]

/-- The files are gone through in the order of their names. -/
theorem pairwise_sourcesIn (hproper : folder.Proper) (name : Option Text) :
    (sourcesIn (Path.ofLocation folder) name before).Pairwise (·.name < ·.name) := by
  cases name with
  | some name => exact List.pairwise_singleton _ _
  | none =>
    rcases sourcesIn_none hproper with hnone | hlisted
    · rw [hnone]
      exact List.Pairwise.nil
    · rw [hlisted, List.pairwise_map]
      simp only [Path.name_ofLocation]
      exact pairwise_namesWith _ _ _

/-! ## The stages -/

/-- The enhancing stage of a plan. The result is the number of failures reported. -/
def Plan.enhanceStage (plan : Plan) : Run Nat :=
  if plan.stages.enhances then
    match plan.name with
    | some name => enhanceOne plan.source plan.enhanced name plan.mode
    | none => enhanceAll plan.source plan.enhanced plan.mode
  else pure 0

/-- The rendering stage of a plan. -/
def Plan.renderStage (plan : Plan) (convert : Text → Text) : Run Unit :=
  if plan.stages.renders then
    match plan.name with
    | some name =>
      discard (renderPage convert plan.shell plan.site (plan.enhanced.child (name ++ ".md")))
    | none => renderAll convert plan.shell plan.site plan.enhanced
  else pure ()

theorem Plan.run_eq (plan : Plan) (convert : Text → Text) :
    plan.run convert = do
      let errors ← plan.enhanceStage
      plan.renderStage convert
      return errors := by
  obtain ⟨name, stages, mode, source, enhanced, site, shell⟩ := plan
  cases name <;> cases stages <;> rfl

/-- The sources of the enhancing stage. -/
def Plan.sources (plan : Plan) (workspace : Workspace) : List Path :=
  if plan.stages.enhances then sourcesIn plan.source plan.name workspace else []

/-- The sources of the rendering stage. -/
def Plan.pages (plan : Plan) (workspace : Workspace) : List Path :=
  if plan.stages.renders then sourcesIn plan.enhanced plan.name workspace else []

theorem sources_of_both {plan : Plan} (h : plan.stages = .both) :
    plan.sources before = sourcesIn plan.source plan.name before := by
  unfold Plan.sources
  rw [h]
  rfl

theorem pages_of_both {plan : Plan} (h : plan.stages = .both) :
    plan.pages before = sourcesIn plan.enhanced plan.name before := by
  unfold Plan.pages
  rw [h]
  rfl

/-- What a stage can do: it fails before it comes to a file, or it prepares its folder and goes
through files. -/
inductive Swept (step : Path → Run PUnit) (folder : Location) (sources : List Path)
    (before : Workspace) : Except Failure PUnit → Workspace → Prop
  | refused {failure : Failure} {after : Workspace}
      (grown : Grown (fun _ => False) (· <+: folder) before after) :
      Swept step folder sources before (.error failure) after
  | swept {started : Workspace} {result : Except Failure PUnit} {after : Workspace}
      (prepared : Grown (fun _ => False) (· <+: folder) before started)
      (exec : exec (sources.forM step) started = (result, after)) :
      Swept step folder sources before result after

section Swept

variable {step : Path → Run PUnit} {sources : List Path} {result : Except Failure PUnit}
  {plan : Plan}

/-- A stage that begins by making its folder. -/
theorem swept_of_makeFolders {α : Type} {next : Run α} (hwf : before.WellFormed)
    (hproper : folder.Proper)
    (h : exec (discard (makeFolders (Path.ofLocation folder) >>= fun _ => next)) before =
      (result, after))
    (hnext : ∀ started, exec (discard next) started = exec (sources.forM step) started) :
    Swept step folder sources before result after := by
  have hmade := (made_of_makeFolders hwf.tree hproper before.home).1
  have hgrown : Grown (fun _ => False) (· <+: folder) before
      { before with tree := (before.tree.makeFolders before.home (Path.ofLocation folder)).1 } :=
    .of_tree hwf hmade.grows rfl hmade.wellFormed
  rw [discard_bind, exec_bind, exec_makeFolders] at h
  generalize before.tree.makeFolders before.home (Path.ofLocation folder) = made at h hgrown
  obtain ⟨tree, failure | ⟨⟩⟩ := made
  · obtain ⟨rfl, rfl⟩ := Prod.mk.inj h
    exact .refused hgrown
  · exact .swept hgrown ((hnext _).symm.trans h)

/-- The step of one file is the whole way through a list of one. -/
theorem exec_forM_singleton (step : Path → Run PUnit) (source : Path) :
    exec ([source].forM step) before = exec (step source) before := by
  rw [exec_forM_cons, exec_bind]
  rcases exec (step source) before with ⟨failure | ⟨⟩, after⟩ <;> rfl

theorem swept_enhanceOne {sourceDir : Path} {mode : ErrorMode} (hwf : before.WellFormed)
    (hproper : folder.Proper) (name : Text)
    (h : exec (discard (enhanceOne sourceDir (.ofLocation folder) name mode)) before =
      (result, after)) :
    Swept (fun source => discard (enhanceInto (.ofLocation folder) source mode)) folder
      (sourcesIn sourceDir (some name) before) before result after := by
  unfold enhanceOne at h
  rw [discard_bind, exec_bind, exec_pathExists] at h
  generalize before.tree.lookAt before.home (sourceDir.child (name ++ ".md")).route = found at h
  rcases found with error | entry
  · obtain ⟨rfl, rfl⟩ := Prod.mk.inj h
    exact .refused (.refl hwf)
  · cases entry with
    | none =>
      obtain ⟨rfl, rfl⟩ := Prod.mk.inj h
      exact .refused (.refl hwf)
    | some entry =>
      refine swept_of_makeFolders hwf hproper h fun started => ?_
      rw [sourcesIn_some, exec_forM_singleton]

theorem swept_enhanceAll {sourceDir : Path} {mode : ErrorMode} (hwf : before.WellFormed)
    (hproper : folder.Proper)
    (h : exec (discard (enhanceAll sourceDir (.ofLocation folder) mode)) before =
      (result, after)) :
    Swept (fun source => discard (enhanceInto (.ofLocation folder) source mode)) folder
      (sourcesIn sourceDir none before) before result after := by
  unfold enhanceAll at h
  unfold sourcesIn
  rw [discard_bind, exec_bind, exec_listMarkdown] at h
  generalize before.tree.list before.home sourceDir ".md" = listed at h ⊢
  rcases listed with error | paths
  · obtain ⟨rfl, rfl⟩ := Prod.mk.inj h
    exact .refused (.refl hwf)
  · cases paths with
    | nil =>
      obtain ⟨rfl, rfl⟩ := Prod.mk.inj h
      exact .swept (.printed hwf _) rfl
    | cons first rest =>
      exact swept_of_makeFolders hwf hproper h fun started => exec_sum _ _ _

/-- The step of the enhancing stage. -/
def Plan.enhanceStep (plan : Plan) (source : Path) : Run PUnit :=
  discard (enhanceInto plan.enhanced source plan.mode)

/-- The step of the rendering stage. -/
def Plan.renderStep (plan : Plan) (convert : Text → Text) (source : Path) : Run PUnit :=
  discard (renderPage convert plan.shell plan.site source)

theorem swept_enhanceStage {counted : Except Failure Nat} (hwf : before.WellFormed)
    (henhanced : plan.enhanced.Settled)
    (h : exec plan.enhanceStage before = (counted, after)) :
    Swept plan.enhanceStep plan.enhanced.parts (plan.sources before) before
      (counted.map fun _ => ⟨⟩) after := by
  replace h : exec (discard plan.enhanceStage) before =
      (counted.map fun _ => PUnit.unit, after) := by
    rw [exec_discard, h]
  generalize (counted.map fun _ => PUnit.unit) = result at h ⊢
  obtain ⟨heq, hproper⟩ := henhanced
  unfold Plan.enhanceStage at h
  unfold Plan.sources Plan.enhanceStep
  generalize plan.enhanced.parts = folder at heq hproper
  rw [heq] at h ⊢
  split at h
  · rename_i hstages
    rw [if_pos hstages]
    cases hname : plan.name with
    | some name =>
      rw [hname] at h
      exact swept_enhanceOne hwf hproper name h
    | none =>
      rw [hname] at h
      exact swept_enhanceAll hwf hproper h
  · rename_i hstages
    rw [if_neg hstages]
    obtain ⟨rfl, rfl⟩ := Prod.mk.inj h
    exact .swept (.refl hwf) rfl

theorem swept_renderAll {convert : Text → Text} {shell : Shell} {sourceDir : Path}
    (hwf : before.WellFormed)
    (h : exec (renderAll convert shell (.ofLocation folder) sourceDir) before = (result, after)) :
    Swept (fun source => discard (renderPage convert shell (.ofLocation folder) source)) folder
      (sourcesIn sourceDir none before) before result after := by
  unfold renderAll at h
  unfold sourcesIn
  rw [exec_bind, exec_listMarkdown] at h
  generalize before.tree.list before.home sourceDir ".md" = listed at h ⊢
  rcases listed with error | paths
  · obtain ⟨rfl, rfl⟩ := Prod.mk.inj h
    exact .refused (.refl hwf)
  · cases paths with
    | nil =>
      obtain ⟨rfl, rfl⟩ := Prod.mk.inj h
      exact .swept (.printed hwf _) rfl
    | cons first rest => exact .swept (.refl hwf) h

theorem swept_renderStage {convert : Text → Text} (hwf : before.WellFormed)
    (hsite : plan.site.Settled) (h : exec (plan.renderStage convert) before = (result, after)) :
    Swept (plan.renderStep convert) plan.site.parts (plan.pages before) before result after := by
  have heq := hsite.eq
  unfold Plan.renderStage at h
  unfold Plan.pages Plan.renderStep
  generalize plan.site.parts = folder at heq
  rw [heq] at h ⊢
  split at h
  · rename_i hstages
    rw [if_pos hstages]
    cases hname : plan.name with
    | some name =>
      rw [hname] at h
      exact .swept (.refl hwf) ((exec_forM_singleton _ _).trans h)
    | none =>
      rw [hname] at h
      exact swept_renderAll hwf h
  · rename_i hstages
    rw [if_neg hstages]
    obtain ⟨rfl, rfl⟩ := Prod.mk.inj h
    exact .swept (.refl hwf) rfl

theorem of_mem_sources (hwf : before.WellFormed) (hsource : plan.source.Settled)
    (hmem : source ∈ plan.sources before) :
    plan.stages.enhances = true ∧ ∃ front, '/' ∉ front ∧ source.name = front ++ (".md" : Text) := by
  unfold Plan.sources at hmem
  split at hmem
  · rename_i hstages
    rw [hsource.eq] at hmem
    exact ⟨hstages, exists_name_of_mem_sourcesIn hwf hsource.proper hmem⟩
  · cases hmem

theorem of_mem_pages (hwf : before.WellFormed) (henhanced : plan.enhanced.Settled)
    (hmem : source ∈ plan.pages before) :
    plan.stages.renders = true ∧ ∃ front, '/' ∉ front ∧ source.name = front ++ (".md" : Text) := by
  unfold Plan.pages at hmem
  split at hmem
  · rename_i hstages
    rw [henhanced.eq] at hmem
    exact ⟨hstages, exists_name_of_mem_sourcesIn hwf henhanced.proper hmem⟩
  · cases hmem

theorem pairwise_sources (hsource : plan.source.Settled) :
    (plan.sources before).Pairwise (·.name < ·.name) := by
  unfold Plan.sources
  split
  · rw [hsource.eq]
    exact pairwise_sourcesIn hsource.proper _
  · exact List.Pairwise.nil

theorem pairwise_pages (henhanced : plan.enhanced.Settled) :
    (plan.pages before).Pairwise (·.name < ·.name) := by
  unfold Plan.pages
  split
  · rw [henhanced.eq]
    exact pairwise_sourcesIn henhanced.proper _
  · exact List.Pairwise.nil

theorem isProducer_enhanceStep (hwf : before.WellFormed) (hsource : plan.source.Settled)
    (henhanced : plan.enhanced.Settled) (hmem : source ∈ plan.sources before) :
    IsProducer (EnhancedText plan.mode source) plan.enhanced.parts source.name
      (plan.enhanceStep source) := by
  obtain ⟨-, front, hfront, hname⟩ := of_mem_sources hwf hsource hmem
  unfold Plan.enhanceStep
  rw [henhanced.eq]
  exact isProducer_enhanceInto plan.mode henhanced.proper (hname ▸ isEnding_md.isName hfront)

theorem isProducer_renderStep (convert : Text → Text) (hwf : before.WellFormed)
    (henhanced : plan.enhanced.Settled) (hsite : plan.site.Settled)
    (hmem : source ∈ plan.pages before) :
    IsProducer (PageText convert plan.shell source) plan.site.parts (pageName source)
      (plan.renderStep convert source) := by
  obtain ⟨-, front, hfront, hname⟩ := of_mem_pages hwf henhanced hmem
  unfold Plan.renderStep
  rw [hsite.eq]
  exact isProducer_renderPage convert plan.shell hsite.proper
    (hname ▸ (isEnding_md.isName hfront).noSlash)

/-! ## What the stages write -/

section Writes

variable {computes : Path → FileTree → Location → Text → Prop} {target : Path → Text}

/-- A stage writes the targets of its files, however it ends. -/
theorem Swept.grown
    (hsteps : ∀ source ∈ sources, IsProducer (computes source) folder (target source) (step source))
    (h : Swept step folder sources before result after) :
    Grown (IsTarget folder target sources) (· <+: folder) before after := by
  cases h with
  | refused hgrown => exact hgrown.mono (fun _ hfile => hfile.elim) fun _ h => h
  | swept hprepared hexec =>
    refine (hprepared.mono (fun _ hfile => hfile.elim) fun _ h => h).trans ?_
    cases result with
    | ok => exact grown_of_forM hsteps hprepared.wellFormed hexec
    | error failure =>
      obtain ⟨first, failing, rest, middle, rfl, -, -, hgrown⟩ :=
        stopped_of_forM hsteps hprepared.wellFormed hexec
      refine hgrown.mono ?_ fun _ h => h
      exact fun location ⟨source, hsource, hlocation⟩ =>
        ⟨source, List.mem_append_left _ hsource, hlocation⟩

theorem enhanceStage_grown {counted : Except Failure Nat} (hwf : before.WellFormed)
    (hsource : plan.source.Settled) (henhanced : plan.enhanced.Settled)
    (h : exec plan.enhanceStage before = (counted, after)) :
    Grown (IsTarget plan.enhanced.parts Path.name (plan.sources before))
      (· <+: plan.enhanced.parts) before after :=
  (swept_enhanceStage hwf henhanced h).grown fun _ hmem =>
    isProducer_enhanceStep hwf hsource henhanced hmem

theorem renderStage_grown {convert : Text → Text} (hwf : before.WellFormed)
    (henhanced : plan.enhanced.Settled) (hsite : plan.site.Settled)
    (h : exec (plan.renderStage convert) before = (result, after)) :
    Grown (IsTarget plan.site.parts pageName (plan.pages before)) (· <+: plan.site.parts) before
      after :=
  (swept_renderStage hwf hsite h).grown fun _ hmem =>
    isProducer_renderStep convert hwf henhanced hsite hmem

/-- After a stage over all files of a folder, a target that no later file shares holds the text that
was computed for its file. -/
theorem Swept.produced {place : Location} {names : List Text} {name : Text}
    (hsteps : ∀ source ∈ sources, IsProducer (computes source) folder (target source) (step source))
    (hsources : sources = names.map fun name => Path.ofLocation (place ++ [name]))
    (hordered : names.Pairwise (· < ·)) (hname : name ∈ names)
    (hlater : ∀ later ∈ names, name < later →
      target (.ofLocation (place ++ [later])) ≠ target (.ofLocation (place ++ [name])))
    (h : Swept step folder sources before (.ok ⟨⟩) after) :
    ∃ middle text, Grown (IsTarget folder target sources) (· <+: folder) before middle ∧
      computes (.ofLocation (place ++ [name])) middle.tree middle.home text ∧
      after.tree.get? (folder ++ [target (.ofLocation (place ++ [name]))]) =
        some (.file (Utf8.encode text)) ∧
      (Path.ofLocation (folder ++ [target (.ofLocation (place ++ [name]))])).Fits := by
  cases h with
  | swept hprepared hexec =>
    obtain ⟨first, rest, rfl⟩ := List.append_of_mem hname
    rw [List.map_append, List.map_cons] at hsources
    subst hsources
    obtain ⟨middle, text, -, hgrown, hcomputed, hwritten, hfits⟩ :=
      produced_of_forM hsteps hprepared.wellFormed hexec fun other hother => by
        obtain ⟨later, hmem, rfl⟩ := List.mem_map.mp hother
        have hlt := (List.pairwise_cons.mp (List.pairwise_append.mp hordered).2.1).1 later hmem
        exact hlater later (by simp [hmem]) hlt
    refine ⟨middle, text, ?_, hcomputed, hwritten, hfits⟩
    refine (hprepared.mono (fun _ hfile => hfile.elim) fun _ h => h).trans
      (hgrown.mono ?_ fun _ h => h)
    exact fun location ⟨source, hmem, hlocation⟩ =>
      ⟨source, List.mem_append_left _ hmem, hlocation⟩

end Writes

/-- If the enhancing stage comes to its end, each source has its enhanced text, made when the
sources before it had been enhanced. -/
theorem enhanced_of_forM {first rest : List Path} {started : Workspace} (hwf : before.WellFormed)
    (hsource : plan.source.Settled) (henhanced : plan.enhanced.Settled)
    (hsources : plan.sources before = first ++ source :: rest) (hstarted : started.WellFormed)
    (h : exec ((plan.sources before).forM plan.enhanceStep) started = (.ok ⟨⟩, after)) :
    ∃ turn text, exec (first.forM plan.enhanceStep) started = (.ok ⟨⟩, turn) ∧
      Grown (IsTarget plan.enhanced.parts Path.name first) (· <+: plan.enhanced.parts) started
        turn ∧
      EnhancedText plan.mode source turn.tree turn.home text ∧
      after.tree.get? (plan.enhanced.parts ++ [source.name]) = some (.file (Utf8.encode text)) ∧
      (Path.ofLocation (plan.enhanced.parts ++ [source.name])).Fits := by
  have hproducers : ∀ other ∈ plan.sources before,
      IsProducer (EnhancedText plan.mode other) plan.enhanced.parts other.name
        (plan.enhanceStep other) :=
    fun _ hother => isProducer_enhanceStep hwf hsource henhanced hother
  have hordered : (plan.sources before).Pairwise (·.name < ·.name) := pairwise_sources hsource
  rw [hsources] at h hproducers hordered
  have hlater := (List.pairwise_cons.mp (List.pairwise_append.mp hordered).2.1).1
  exact produced_of_forM hproducers hstarted h fun other hother => ne_of_gt (hlater other hother)

end Swept

end Folio.Build
