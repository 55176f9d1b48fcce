import Folio.Proofs.Build.Overlay
import Folio.Proofs.Command.Rebuild
import Folio.Proofs.Directive.ErrorModes

/-!
# Building page by page

What a strict build needs for one page, and what it writes, depends on the tree at the beginning
alone (`Buildable`). So it makes no difference whether all pages are built at once or one after the
other, in whatever order.
-/

namespace Folio.Command.Build

open Folio.Build FileTree Workspace Run Watch Directive

variable {τ : Type} {request : Request} {base before middle after : Workspace} {settings : Settings}
  {plan : Plan} {arguments : Arguments} {convert : Text → Text} {name : Text}

/-! ## Pages -/

/-- The folder of the sources has a file or a folder with this name and the ending of Markdown
files. -/
def IsSource (plan : Plan) (tree : FileTree) (name : Text) : Prop :=
  (tree.get? (plan.source.parts ++ [name ++ (".md" : Text)])).isSome

/-- Where the enhanced text of a source is written. -/
def enhancedPlace (plan : Plan) (name : Text) : Location :=
  plan.enhanced.parts ++ [name ++ (".md" : Text)]

/-- Where the page of a source is written. -/
def pagePlace (plan : Plan) (name : Text) : Location :=
  plan.site.parts ++ [name ++ (".html" : Text)]

/-- The location is where one of the two files of a source is written. -/
def IsPlaceOf (plan : Plan) (name : Text) (location : Location) : Prop :=
  location = pagePlace plan name ∨ location = enhancedPlace plan name

/-- The source can be enhanced to this text and rendered to this page, and there is room for
both. -/
structure Buildable (convert : Text → Text) (plan : Plan) (tree : FileTree) (home : Location)
    (name text page : Text) : Prop where
  enhances : enhancedAt (Path.ofLocation (plan.source.parts ++ [name ++ (".md" : Text)])) plan.mode
    tree home = .ok ⟨text, []⟩
  renders : plan.shell.wrap tree home (Page.title name text) (convert text) = .ok page
  enhancedRoom : Room tree plan.enhanced.parts (name ++ (".md" : Text))
  siteRoom : Room tree plan.site.parts (name ++ (".html" : Text))

theorem errors_of_strict {source : Path} {tree : FileTree} {home : Location} {expansion : Expansion}
    (h : enhancedAt source .strict tree home = .ok expansion) : expansion.errors = [] := by
  obtain ⟨text, definitions, -, -, henhance⟩ := enhancedAt_eq_ok_iff.mp h
  unfold enhance at henhance
  rw [expand_strict] at henhance
  cases hfailures : failures definitions.directives (some source.text) text with
  | nil =>
    rw [hfailures] at henhance
    obtain rfl := Except.ok.inj henhance
    rfl
  | cons first rest =>
    rw [hfailures] at henhance
    cases henhance

theorem allApart_outputsOf (h : Location.Apart plan.enhanced.parts plan.site.parts) :
    AllApart (outputsOf plan) := by
  intro folder hfolder other hother hne
  simp only [outputsOf, List.mem_cons, List.not_mem_nil, or_false] at hfolder hother
  rcases hfolder with rfl | rfl
  · rcases hother with rfl | rfl
    · exact absurd rfl hne
    · exact h
  · rcases hother with rfl | rfl
    · exact ⟨h.2, h.1⟩
    · exact absurd rfl hne

/-- The texts at the places of a build, for given texts of the sources. -/
def contentOf (plan : Plan) (texts pages : Text → Text) (location : Location) : Text :=
  let name := location.getLast?.getD []
  if location.dropLast = plan.enhanced.parts then texts (name.take (name.length - 3))
  else pages (name.take (name.length - 5))

theorem contentOf_enhancedPlace (texts pages : Text → Text) (name : Text) :
    contentOf plan texts pages (enhancedPlace plan name) = texts name := by
  simp [contentOf, enhancedPlace]

theorem contentOf_pagePlace (h : Location.Apart plan.enhanced.parts plan.site.parts)
    (texts pages : Text → Text) (name : Text) :
    contentOf plan texts pages (pagePlace plan name) = pages name := by
  have hne : plan.site.parts ≠ plan.enhanced.parts := by
    intro hsame
    exact h.1 (hsame ▸ List.prefix_refl _)
  simp [contentOf, pagePlace, hne]

/-! ## Building what can be built -/

/-- The states of a build that has written some of its files. -/
abbrev Built (base : Workspace) (plan : Plan) (texts pages : Text → Text)
    (done : Location → Prop) : Workspace → Prop :=
  Overlaid base (outputsOf plan) (contentOf plan texts pages) done

/-- The path of a source. -/
def sourcePath (plan : Plan) (name : Text) : Path :=
  Path.ofLocation (plan.source.parts ++ [name ++ (".md" : Text)])

section Performs

variable {texts pages : Text → Text} {done : Location → Prop} {workspace : Workspace}
  (hwf : base.WellFormed) (hplanned : Planned request settings plan)
  (hsecluded : Secluded request plan base.tree base.home) (hsource : IsSource plan base.tree name)
  (hbuildable : Buildable convert plan base.tree base.home name (texts name) (pages name))
include hwf hsecluded hsource hbuildable

/-- A source is read and enhanced as at the beginning. -/
theorem enhancedAt_of_built (h : Built base plan texts pages done workspace) :
    enhancedAt (sourcePath plan name) plan.mode workspace.tree workspace.home =
      .ok ⟨texts name, []⟩ := by
  have hstable : Stable (Scope.within base (outputsOf plan) True) _ :=
    stable_enhancedAt (hwf.tree.proper _ hsource)
      (fun folder hfolder => (hsecluded.source folder hfolder).inside _) hwf
        hsecluded.input plan.mode
  rw [h.grown.home]
  exact hstable.kept hwf.tree h.grown.wellFormed.tree (fun _ _ _ => rfl) (h.agrees True)
    hbuildable.enhances

theorem foundAt_of_built (h : Built base plan texts pages done workspace) :
    foundAt (sourcePath plan name) workspace.tree workspace.home = .ok () := by
  obtain ⟨text, -, htext, -⟩ :=
    enhancedAt_eq_ok_iff.mp (enhancedAt_of_built hwf hsecluded hsource hbuildable h)
  exact foundAt_eq_ok_iff.mpr (exists_of_readText htext)

include hplanned

/-- The text that is rendered is the one that has been written. -/
theorem pageAt_of_built (hne : name ≠ []) (hdone : done (enhancedPlace plan name))
    (h : Built base plan texts pages done workspace) :
    pageAt convert plan.shell (Path.ofLocation (enhancedPlace plan name)) workspace.tree
      workspace.home = .ok (pages name) := by
  have hreturn : '\r' ∉ texts name := not_mem_enhanced hbuildable.enhances
  have hname : IsName (name ++ (".md" : Text)) := hwf.tree.proper _ hsource _ (by simp)
  have hproper : Location.Proper (enhancedPlace plan name) := hplanned.enhanced.proper.snoc hname
  have hfile := h.file _ hdone
  rw [contentOf_enhancedPlace] at hfile
  refine pageAt_eq_ok_iff.mpr ⟨texts name, ?_, ?_⟩
  · have hnames : ∀ part ∈ (Path.ofLocation (enhancedPlace plan name)).parts, IsName part := hproper
    refine (readText_eq_ok_iff h.grown.wellFormed.tree hnames).mpr
      ⟨hbuildable.enhancedRoom.fits, ?_⟩
    rw [Path.resolve_ofLocation hproper]
    exact ⟨_, _, hfile, decode_encode _, (Text.normalizeBreaks_of_not_mem hreturn).symm⟩
  · rw [show (Path.ofLocation (enhancedPlace plan name)).stem = name from stem_md hne _,
      h.grown.home]
    refine wrap_congr (fun template hfound => ?_) hbuildable.renders
    refine templateAt_congr h.grown.wellFormed.tree hwf.tree hplanned.template ?_ hfound
    exact ((h.agrees True).get?_eq (hsecluded.input _ .template)).symm

theorem performs_enhanceInto :
    Performs (Built base plan texts pages done)
      (enhanceInto plan.enhanced (sourcePath plan name) plan.mode) 0
      (Built base plan texts pages fun location =>
        location = enhancedPlace plan name ∨ done location) := by
  have hname : IsName (name ++ (".md" : Text)) := hwf.tree.proper _ hsource _ (by simp)
  have hpublish : Performs (Built base plan texts pages done)
      (publish (Path.ofLocation (enhancedPlace plan name)) (texts name)) ⟨⟩
      (Built base plan texts pages fun location =>
        location = enhancedPlace plan name ∨ done location) :=
    performs_publish (allApart_outputsOf hsecluded.enhancedSite) List.mem_cons_self
      hplanned.enhanced.proper hname hbuildable.enhancedRoom
      (contentOf_enhancedPlace texts pages name)
  have htarget : plan.enhanced.child (sourcePath plan name).name =
      Path.ofLocation (enhancedPlace plan name) := by
    rw [sourcePath, Path.name_ofLocation, hplanned.enhanced.eq, Path.child_ofLocation hname]
    rfl
  have hfound (workspace : Workspace) (h : Built base plan texts pages done workspace) :=
    foundAt_of_built hwf hsecluded hsource hbuildable h
  have hreads (workspace : Workspace) (h : Built base plan texts pages done workspace) :=
    enhancedAt_of_built hwf hsecluded hsource hbuildable h
  rw [enhanceInto_eq, htarget]
  refine (performs_report _).bind ((Performs.read hfound).bind ((Performs.read hreads).bind ?_))
  exact (performs_reportAll _).bind (hpublish.bind (Performs.pure 0))

theorem performs_renderPage (hne : name ≠ []) (hdone : done (enhancedPlace plan name)) :
    Performs (Built base plan texts pages done)
      (discard (renderPage convert plan.shell plan.site
        (Path.ofLocation (enhancedPlace plan name)))) ⟨⟩
      (Built base plan texts pages fun location =>
        location = pagePlace plan name ∨ done location) := by
  have hslash : '/' ∉ name := fun hmem =>
    (hwf.tree.proper _ hsource (name ++ (".md" : Text)) (by simp)).noSlash (by simp [hmem])
  have hpage : IsName (name ++ (".html" : Text)) := isEnding_html.isName hslash
  have hpublish : Performs (Built base plan texts pages done)
      (publish (Path.ofLocation (pagePlace plan name)) (pages name)) ⟨⟩
      (Built base plan texts pages fun location =>
        location = pagePlace plan name ∨ done location) :=
    performs_publish (allApart_outputsOf hsecluded.enhancedSite) (by simp [outputsOf])
      hplanned.site.proper hpage hbuildable.siteRoom
      (contentOf_pagePlace hsecluded.enhancedSite texts pages name)
  have htarget : plan.site.child
      ((Path.ofLocation (enhancedPlace plan name)).stem ++ (".html" : Text)) =
      Path.ofLocation (pagePlace plan name) := by
    rw [show (Path.ofLocation (enhancedPlace plan name)).stem = name from stem_md hne _,
      hplanned.site.eq, Path.child_ofLocation hpage]
    rfl
  have hreads (workspace : Workspace) (h : Built base plan texts pages done workspace) :=
    pageAt_of_built hwf hplanned hsecluded hsource hbuildable hne hdone h
  have hfound (workspace : Workspace) (h : Built base plan texts pages done workspace) :
      foundAt (Path.ofLocation (enhancedPlace plan name)) workspace.tree workspace.home =
        .ok () := by
    obtain ⟨text, htext, -⟩ := pageAt_eq_ok_iff.mp (hreads workspace h)
    exact foundAt_eq_ok_iff.mpr (exists_of_readText htext)
  rw [renderPage_eq, htarget]
  exact ((Performs.read hfound).bind ((performs_report _).bind
    ((Performs.read hreads).bind (hpublish.bind
      (Performs.pure (Path.ofLocation (pagePlace plan name))))))).discard

theorem performs_enhanceOne :
    Performs (Built base plan texts pages done)
      (enhanceOne plan.source plan.enhanced name plan.mode) 0
      (Built base plan texts pages fun location =>
        location = enhancedPlace plan name ∨ done location) := by
  have hslash : '/' ∉ name := fun hmem =>
    (hwf.tree.proper _ hsource (name ++ (".md" : Text)) (by simp)).noSlash (by simp [hmem])
  have hmake : Performs (Built base plan texts pages done) (makeFolders plan.enhanced) ⟨⟩
      (Built base plan texts pages done) := by
    rw [hplanned.enhanced.eq]
    exact (performs_makeFolders (allApart_outputsOf hsecluded.enhancedSite) List.mem_cons_self
      hplanned.enhanced.proper hbuildable.enhancedRoom.creatable).mono fun _ h => h.1
  rw [enhanceOne_eq, child_md hplanned.source hslash]
  refine (Performs.read fun workspace (h : Built base plan texts pages done workspace) =>
    foundAt_of_built hwf hsecluded hsource hbuildable h).bind ?_
  exact hmake.bind (performs_enhanceInto hwf hplanned hsecluded hsource hbuildable)

/-- Building one page puts its two files down. -/
theorem performs_single (hstages : plan.stages = .both) (hne : name ≠ []) :
    Performs (Built base plan texts pages done)
      (({ plan with name := some name } : Plan).run convert) 0
      (Built base plan texts pages fun location => IsPlaceOf plan name location ∨
        done location) := by
  have hslash : '/' ∉ name := fun hmem =>
    (hwf.tree.proper _ hsource (name ++ (".md" : Text)) (by simp)).noSlash (by simp [hmem])
  have hpath : plan.enhanced.child (name ++ (".md" : Text)) =
      Path.ofLocation (enhancedPlace plan name) := child_md hplanned.enhanced hslash
  have henhance : Performs (Built base plan texts pages done) _ 0 _ :=
    performs_enhanceOne hwf hplanned hsecluded hsource hbuildable
  rw [Plan.run_eq]
  unfold Plan.enhanceStage Plan.renderStage
  dsimp only
  rw [hstages, if_pos (show Stages.both.enhances = true from rfl),
    if_pos (show Stages.both.renders = true from rfl), hpath]
  simp only [IsPlaceOf, or_assoc]
  exact henhance.bind ((performs_renderPage hwf hplanned hsecluded hsource hbuildable hne
    (.inl rfl)).bind (Performs.pure 0))

end Performs

/-! ## Building all pages -/

theorem exists_of_mem_namesWith {tree : FileTree} {folder : Location} {written : Text} :
    written ∈ tree.namesWith folder ".md" ↔ ∃ name, written = name ++ (".md" : Text) ∧
      (tree.get? (folder ++ [name ++ (".md" : Text)])).isSome := by
  rw [mem_namesWith]
  constructor
  · rintro ⟨hsome, name, rfl⟩
    exact ⟨name, rfl, hsome⟩
  · rintro ⟨name, rfl, hsome⟩
    exact ⟨hsome, List.suffix_append _ _⟩

/-- The Markdown files of a folder, by their paths. -/
def pathsIn (tree : FileTree) (folder : Location) : List Path :=
  (tree.namesWith folder ".md").map fun name => Path.ofLocation (folder ++ [name])

theorem mem_pathsIn {tree : FileTree} {folder : Location} {path : Path} :
    path ∈ pathsIn tree folder ↔ ∃ name,
      path = Path.ofLocation (folder ++ [name ++ (".md" : Text)]) ∧
      (tree.get? (folder ++ [name ++ (".md" : Text)])).isSome := by
  simp only [pathsIn, List.mem_map, exists_of_mem_namesWith]
  constructor
  · rintro ⟨_, ⟨name, rfl, hsome⟩, rfl⟩
    exact ⟨name, rfl, hsome⟩
  · rintro ⟨name, rfl, hsome⟩
    exact ⟨_, ⟨name, rfl, hsome⟩, rfl⟩

section All

variable {texts pages : Text → Text} (hwf : base.WellFormed)
  (hplanned : Planned request settings plan)
  (hsecluded : Secluded request plan base.tree base.home)
  (hsome : ∃ name, IsSource plan base.tree name)
  (hbuildable : ∀ name, IsSource plan base.tree name →
    Buildable convert plan base.tree base.home name (texts name) (pages name))
include hwf hplanned hsecluded hsome hbuildable

theorem performs_enhanceAll (hfits : plan.source.Fits) :
    Performs (Built base plan texts pages fun _ => False)
      (enhanceAll plan.source plan.enhanced plan.mode) 0
      (Built base plan texts pages fun location =>
        ∃ name, IsSource plan base.tree name ∧ location = enhancedPlace plan name) := by
  obtain ⟨first, hfirst⟩ := hsome
  have hfolder : base.tree.get? plan.source.parts = some .folder :=
    hwf.tree.folder_above (List.cons_ne_nil _ []) hfirst
  have hlist (workspace : Workspace) (h : Built base plan texts pages (fun _ => False) workspace) :
      markdownAt plan.source workspace.tree workspace.home =
        .ok (pathsIn base.tree plan.source.parts) := by
    rw [h.grown.home]
    have hstable : Stable (Scope.within base (outputsOf plan) True) (markdownAt plan.source) := by
      rw [hplanned.source.eq] at hfits ⊢
      exact stable_markdownAt hplanned.source.proper hsecluded.source hfits (by rw [hfolder]; rfl)
    refine hstable.kept hwf.tree h.grown.wellFormed.tree (fun _ _ _ => rfl) (h.agrees True) ?_
    refine mapError_eq_ok_iff.mpr ?_
    rw [hplanned.source.eq] at hfits ⊢
    exact list_eq_ok hwf.tree hplanned.source.proper hfits hfolder _
  have hmake : Performs (Built base plan texts pages fun _ => False) (makeFolders plan.enhanced) ⟨⟩
      (Built base plan texts pages fun _ => False) := by
    rw [hplanned.enhanced.eq]
    exact (performs_makeFolders (allApart_outputsOf hsecluded.enhancedSite) List.mem_cons_self
      hplanned.enhanced.proper (hbuildable first hfirst).enhancedRoom.creatable).mono fun _ h => h.1
  have hsweep : Performs (Built base plan texts pages fun _ => False)
      ((pathsIn base.tree plan.source.parts).foldlM
        (fun errors source => return errors + (← enhanceInto plan.enhanced source plan.mode)) 0) 0
      (Built base plan texts pages fun location =>
        (∃ path ∈ pathsIn base.tree plan.source.parts,
          location = plan.enhanced.parts ++ [path.name]) ∨ False) := by
    refine Performs.foldlM fun path hpath more _ => ?_
    obtain ⟨name, rfl, hsource⟩ := mem_pathsIn.mp hpath
    rw [Path.name_ofLocation]
    exact (performs_enhanceInto hwf hplanned hsecluded hsource (hbuildable name hsource)).bind
      (Performs.pure 0)
  have hdone : (fun location => (∃ path ∈ pathsIn base.tree plan.source.parts,
      location = plan.enhanced.parts ++ [path.name]) ∨ False) =
      fun location => ∃ name, IsSource plan base.tree name ∧
        location = enhancedPlace plan name := by
    funext location
    simp only [mem_pathsIn, or_false, eq_iff_iff]
    constructor
    · rintro ⟨_, ⟨name, rfl, hsource⟩, rfl⟩
      exact ⟨name, hsource, by rw [Path.name_ofLocation, enhancedPlace]⟩
    · rintro ⟨name, hsource, rfl⟩
      exact ⟨_, ⟨name, rfl, hsource⟩, by rw [Path.name_ofLocation, enhancedPlace]⟩
  rw [hdone] at hsweep
  unfold enhanceAll
  rw [listMarkdown_eq]
  refine (Performs.read hlist).bind ?_
  cases hpaths : pathsIn base.tree plan.source.parts with
  | nil =>
    exact absurd (mem_pathsIn.mpr ⟨first, rfl, hfirst⟩) (by rw [hpaths]; exact List.not_mem_nil)
  | cons path paths =>
    rw [hpaths] at hsweep
    exact hmake.bind hsweep

variable (hstale : ∀ name, (base.tree.get? (enhancedPlace plan name)).isSome →
  IsSource plan base.tree name)
include hstale

omit hwf in
/-- After the first stage the enhanced texts of the sources are listed, and nothing else. -/
theorem listed_of_built {workspace : Workspace}
    (h : Built base plan texts pages (fun location =>
      ∃ name, IsSource plan base.tree name ∧ location = enhancedPlace plan name) workspace) :
    markdownAt plan.enhanced workspace.tree workspace.home =
      .ok ((base.tree.namesWith plan.source.parts ".md").map fun written =>
        Path.ofLocation (plan.enhanced.parts ++ [written])) := by
  obtain ⟨first, hfirst⟩ := hsome
  have hthere (name : Text) (hsource : IsSource plan base.tree name) :
      (workspace.tree.get? (enhancedPlace plan name)).isSome := by
    rw [h.file _ ⟨name, hsource, rfl⟩]
    rfl
  have hfolder : workspace.tree.get? plan.enhanced.parts = some .folder :=
    h.grown.wellFormed.tree.folder_above (List.cons_ne_nil _ []) (hthere first hfirst)
  have hfits := (hbuildable first hfirst).enhancedRoom.creatable.fits
  have hlist : workspace.tree.list workspace.home (Path.ofLocation plan.enhanced.parts) ".md" = _ :=
    list_eq_ok h.grown.wellFormed.tree hplanned.enhanced.proper hfits hfolder ".md"
  have hnames : workspace.tree.namesWith plan.enhanced.parts ".md" =
      base.tree.namesWith plan.source.parts ".md" := by
    refine (pairwise_namesWith _ _ _).eq_of_mem_iff (pairwise_namesWith _ _ _) fun written => ?_
    rw [exists_of_mem_namesWith, exists_of_mem_namesWith]
    refine exists_congr fun name => and_congr_right fun _ => ⟨fun hsome => ?_, hthere name⟩
    by_cases hsource : IsSource plan base.tree name
    · exact hsource
    · refine hstale name ?_
      rw [← h.same (enhancedPlace plan name)
        (not_isAbove_inside (allApart_outputsOf hsecluded.enhancedSite) List.mem_cons_self _)]
      · exact hsome
      · rintro ⟨other, hother, hsame⟩
        have hname : name = other := by simpa [enhancedPlace] using hsame
        exact hsource (hname ▸ hother)
  rw [hnames] at hlist
  refine mapError_eq_ok_iff.mpr ?_
  rw [hplanned.enhanced.eq]
  exact hlist

theorem performs_renderAll (hnames : ∀ name, IsSource plan base.tree name → name ≠ []) :
    Performs
      (Built base plan texts pages fun location =>
        ∃ name, IsSource plan base.tree name ∧ location = enhancedPlace plan name)
      (renderAll convert plan.shell plan.site plan.enhanced) ⟨⟩
      (Built base plan texts pages fun location =>
        ∃ name, IsSource plan base.tree name ∧ IsPlaceOf plan name location) := by
  have hlist (workspace : Workspace) (h : Built base plan texts pages (fun location =>
      ∃ name, IsSource plan base.tree name ∧ location = enhancedPlace plan name) workspace) :=
    listed_of_built hplanned hsecluded hsome hbuildable hstale h
  have hmem {path : Path} :
      path ∈ (base.tree.namesWith plan.source.parts ".md").map (fun written =>
        Path.ofLocation (plan.enhanced.parts ++ [written])) ↔
      ∃ name, IsSource plan base.tree name ∧ path = Path.ofLocation (enhancedPlace plan name) := by
    simp only [List.mem_map, exists_of_mem_namesWith]
    constructor
    · rintro ⟨_, ⟨name, rfl, hsource⟩, rfl⟩
      exact ⟨name, hsource, rfl⟩
    · rintro ⟨name, hsource, rfl⟩
      exact ⟨_, ⟨name, rfl, hsource⟩, rfl⟩
  have hpage (name : Text) (hsource : IsSource plan base.tree name) :
      plan.site.parts ++ [pageName (Path.ofLocation (enhancedPlace plan name))] =
        pagePlace plan name := by
    rw [pageName, show (Path.ofLocation (enhancedPlace plan name)).stem = name from
      stem_md (hnames name hsource) _]
    rfl
  generalize (base.tree.namesWith plan.source.parts ".md").map (fun written =>
    Path.ofLocation (plan.enhanced.parts ++ [written])) = paths at hlist hmem
  have hsweep : Performs
      (Built base plan texts pages fun location =>
        ∃ name, IsSource plan base.tree name ∧ location = enhancedPlace plan name)
      (paths.forM fun source => discard (renderPage convert plan.shell plan.site source)) ⟨⟩
      (Built base plan texts pages fun location =>
        (∃ path ∈ paths, location = plan.site.parts ++ [pageName path]) ∨
        ∃ name, IsSource plan base.tree name ∧ location = enhancedPlace plan name) := by
    refine Performs.forM fun path hpath more hmore => ?_
    obtain ⟨name, hsource, rfl⟩ := hmem.mp hpath
    rw [hpage name hsource]
    exact performs_renderPage hwf hplanned hsecluded hsource (hbuildable name hsource)
      (hnames name hsource) (hmore _ ⟨name, hsource, rfl⟩)
  have hdone : (fun location => (∃ path ∈ paths, location = plan.site.parts ++ [pageName path]) ∨
      ∃ name, IsSource plan base.tree name ∧ location = enhancedPlace plan name) =
      fun location => ∃ name, IsSource plan base.tree name ∧ IsPlaceOf plan name location := by
    funext location
    simp only [hmem, eq_iff_iff]
    constructor
    · rintro (⟨_, ⟨name, hsource, rfl⟩, hlocation⟩ | ⟨name, hsource, hlocation⟩)
      · exact ⟨name, hsource, .inl (hlocation.trans (hpage name hsource))⟩
      · exact ⟨name, hsource, .inr hlocation⟩
    · rintro ⟨name, hsource, hlocation | hlocation⟩
      · exact .inl ⟨_, ⟨name, hsource, rfl⟩, hlocation.trans (hpage name hsource).symm⟩
      · exact .inr ⟨name, hsource, hlocation⟩
  rw [hdone] at hsweep
  unfold renderAll
  rw [listMarkdown_eq]
  refine (Performs.read hlist).bind ?_
  obtain ⟨first, hfirst⟩ := hsome
  cases paths with
  | nil => exact absurd (hmem.mpr ⟨first, hfirst, rfl⟩) List.not_mem_nil
  | cons path paths => exact hsweep

/-- Building all pages puts the files of all sources down. -/
theorem performs_full (hstages : plan.stages = .both) (hall : plan.name = none)
    (hfits : plan.source.Fits) (hnames : ∀ name, IsSource plan base.tree name → name ≠ []) :
    Performs (Built base plan texts pages fun _ => False) (plan.run convert) 0
      (Built base plan texts pages fun location =>
        ∃ name, IsSource plan base.tree name ∧ IsPlaceOf plan name location) := by
  rw [Plan.run_eq]
  unfold Plan.enhanceStage Plan.renderStage
  rw [hstages, hall, if_pos (show Stages.both.enhances = true from rfl),
    if_pos (show Stages.both.renders = true from rfl)]
  exact (performs_enhanceAll hwf hplanned hsecluded hsome hbuildable hfits).bind
    ((performs_renderAll hwf hplanned hsecluded hsome hbuildable hstale hnames).bind
      (Performs.pure 0))

end All

/-! ## What has been built could be built -/

/-- The files that a stage goes through, if it goes through a given one. -/
theorem sourcesIn_of_isSome {path : Path} {given : Option Text} (hwf : base.WellFormed)
    (hsettled : path.Settled) (hfits : path.Fits)
    (hsome : (base.tree.get? (path.parts ++ [name ++ (".md" : Text)])).isSome)
    (hgiven : ∀ single ∈ given, single = name) :
    ∃ names : List Text, sourcesIn path given base =
        names.map (fun written => Path.ofLocation (path.parts ++ [written])) ∧
      names.Pairwise (· < ·) ∧ name ++ (".md" : Text) ∈ names ∧
      ∀ written ∈ names, (".md" : Text) <:+ written := by
  cases given with
  | none =>
    refine ⟨_, sourcesIn_folder hwf hsettled hfits hsome, pairwise_namesWith _ _ _, ?_, ?_⟩
    · exact mem_namesWith.mpr ⟨hsome, List.suffix_append _ _⟩
    · exact fun written hwritten => (mem_namesWith.mp hwritten).2
  | some single =>
    obtain rfl := hgiven single rfl
    have hslash : '/' ∉ single := fun hmem =>
      (hwf.tree.proper _ hsome (single ++ (".md" : Text)) (by simp)).noSlash (by simp [hmem])
    refine ⟨[single ++ (".md" : Text)], ?_, List.pairwise_singleton _ _,
      List.mem_singleton_self _, ?_⟩
    · rw [sourcesIn_some, child_md hsettled hslash]
      rfl
    · exact List.forall_mem_singleton.mpr (List.suffix_append _ _)

section Converse

variable (hwf : base.WellFormed) (hplanned : Planned request settings plan)
  (hstages : plan.stages = .both) (hgiven : ∀ single ∈ plan.name, single = name)
include hwf hplanned hstages hgiven

theorem enhances_of_enhanceStage (hmode : plan.mode = .strict)
    (hsecluded : Secluded request plan base.tree base.home) (hfits : plan.source.Fits)
    (hsource : IsSource plan base.tree name) {errors : Nat}
    (h : exec plan.enhanceStage base = (.ok errors, after)) :
    ∃ text, enhancedAt (sourcePath plan name) plan.mode base.tree base.home = .ok ⟨text, []⟩ ∧
      after.tree.get? (enhancedPlace plan name) = some (.file (Utf8.encode text)) ∧
      (Path.ofLocation (enhancedPlace plan name)).Fits := by
  have hmem : plan.enhanced.parts ∈ outputsOf plan := List.mem_cons_self
  obtain ⟨names, hnames, hordered, hname, -⟩ :=
    sourcesIn_of_isSome hwf hplanned.source hfits hsource hgiven
  rw [← sources_of_both hstages] at hnames
  obtain ⟨found, _, hfound, ⟨written, definitions, expansion, hread, hdefinitions, hexpand, rfl⟩,
      hwritten, hroom⟩ :=
    (swept_enhanceStage hwf hplanned.enhanced h).produced
      (fun _ hmem => isProducer_enhanceStep hwf hplanned.source hplanned.enhanced hmem) hnames
      hordered hname fun later _ hlt => by
        rw [Path.name_ofLocation, Path.name_ofLocation]
        exact ne_of_gt hlt
  rw [Path.name_ofLocation] at hwritten hroom
  have hstable : Stable (Scope.within base (outputsOf plan) True) _ :=
    stable_enhancedAt (hwf.tree.proper _ hsource)
      (fun folder hfolder => (hsecluded.source folder hfolder).inside _) hwf
        hsecluded.input plan.mode
  have hagrees : (Scope.within base (outputsOf plan) True).Agrees found.tree :=
    fun _ hfile hfolder => (grown_of_isTarget hmem hfound).tree.get?_eq hfile hfolder
  have hthere : enhancedAt (sourcePath plan name) plan.mode found.tree base.home =
      .ok expansion := by
    rw [← hfound.home]
    exact enhancedAt_eq_ok_iff.mpr ⟨written, definitions, hread, hdefinitions, hexpand⟩
  have henhanced := hstable.kept hfound.wellFormed.tree hwf.tree hagrees (fun _ _ _ => rfl) hthere
  have herrors : expansion.errors = [] := errors_of_strict (hmode ▸ henhanced)
  refine ⟨expansion.text, ?_, hwritten, hroom⟩
  rw [← herrors]
  exact henhanced

theorem renders_of_renderStage (hapart : Location.Apart plan.enhanced.parts plan.site.parts)
    (htemplate : Location.Apart plan.shell.template.parts plan.site.parts) (hne : name ≠ [])
    {text : Text} (hreturn : '\r' ∉ text)
    (hfile : base.tree.get? (enhancedPlace plan name) = some (.file (Utf8.encode text)))
    (hfits : (Path.ofLocation (enhancedPlace plan name)).Fits)
    (h : exec (plan.renderStage convert) base = (.ok ⟨⟩, after)) :
    ∃ page, plan.shell.wrap base.tree base.home (Page.title name text) (convert text) = .ok page ∧
      after.tree.get? (pagePlace plan name) = some (.file (Utf8.encode page)) ∧
      (Path.ofLocation (pagePlace plan name)).Fits := by
  have hsome : (base.tree.get? (enhancedPlace plan name)).isSome := by
    rw [hfile]
    rfl
  obtain ⟨names, hnames, hordered, hname, hendings⟩ :=
    sourcesIn_of_isSome hwf hplanned.enhanced (hplanned.enhanced.eq ▸ hfits.above) hsome hgiven
  rw [← pages_of_both hstages] at hnames
  obtain ⟨found, page, hfound, ⟨written, hread, hwrap⟩, hwritten, hroom⟩ :=
    (swept_renderStage hwf hplanned.site h).produced
      (fun _ hmem => isProducer_renderStep convert hwf hplanned.enhanced hplanned.site hmem) hnames
      hordered hname fun later hlater hlt => pageName_ne hne (hendings later hlater) hlt
  have hproper : Location.Proper (enhancedPlace plan name) := hwf.tree.proper _ hsome
  have hkept := get?_of_apart hfound (hapart.inside (name ++ (".md" : Text)))
  obtain rfl : written = text :=
    readText_written hfound.wellFormed.tree hproper hreturn (hkept.trans hfile) hread
  unfold pageName at hwritten hroom
  rw [stem_md hne] at hwritten hroom hwrap
  refine ⟨page, ?_, hwritten, hroom⟩
  rw [hfound.home] at hwrap
  refine wrap_congr (fun template hthere => ?_) hwrap
  exact templateAt_congr hwf.tree hfound.wellFormed.tree hplanned.template
    (get?_of_apart hfound htemplate) hthere

/-- If a strict build succeeds, the pages that it is to build can be built. -/
theorem buildable_of_run (hmode : plan.mode = .strict)
    (hsecluded : Secluded request plan base.tree base.home) (hfits : plan.source.Fits)
    (hsource : IsSource plan base.tree name) (hne : name ≠ []) {errors : Nat}
    (h : exec (plan.run convert) base = (.ok errors, after)) :
    ∃ text page, Buildable convert plan base.tree base.home name text page := by
  have hgrown := grown_within hwf hplanned h
  have hallApart := allApart_outputsOf hsecluded.enhancedSite
  rw [Plan.run_eq, exec_bind_eq_ok] at h
  obtain ⟨_, middle, henhance, h⟩ := h
  obtain ⟨_, _, hrender, hlast⟩ := exec_bind_eq_ok.mp h
  obtain ⟨-, rfl⟩ := Prod.mk.inj hlast
  have hfirst := enhanceStage_grown hwf hplanned.source hplanned.enhanced henhance
  have hsecond := renderStage_grown hfirst.wellFormed hplanned.enhanced hplanned.site hrender
  obtain ⟨henhanced, hsite⟩ := hsecluded.inputs _ .template
  obtain ⟨text, henhances, hwritten, hplace⟩ :=
    enhances_of_enhanceStage hwf hplanned hstages hgiven hmode hsecluded hfits hsource henhance
  obtain ⟨page, hrenders, hpage, hpagePlace⟩ :=
    renders_of_renderStage hfirst.wellFormed hplanned hstages hgiven hsecluded.enhancedSite
      hsite hne (not_mem_enhanced henhances) hwritten hplace hrender
  refine ⟨text, page, henhances, ?_, ?_, ?_⟩
  · rw [hfirst.home] at hrenders
    refine wrap_congr (fun template hthere => ?_) hrenders
    exact templateAt_congr hwf.tree hfirst.wellFormed.tree hplanned.template
      (get?_of_apart hfirst henhanced) hthere
  · have hkept : _ = some (Entry.file (Utf8.encode text)) :=
      (get?_of_apart hsecond (hsecluded.enhancedSite.inside _)).trans hwritten
    exact room_of_file hgrown hallApart (by simp [outputsOf]) hplace hkept
  · exact room_of_file hgrown hallApart (by simp [outputsOf]) hpagePlace hpage

end Converse

end Folio.Command.Build
