import Folio.Proofs.Command.Secluded
import Folio.Proofs.Command.Writes

/-!
# Building again

A secluded build that is carried out again finds what it found before, and leaves the tree as it is.

Main result: `rebuild_same`.
-/

namespace Folio.Command.Build

open Folio.Build FileTree Workspace Run Watch Directive

variable {τ : Type} {request : Request} {base before after second : Workspace} {settings : Settings}
  {plan : Plan} {arguments : Arguments} {outputs : List Location} {exact : Prop}
  {folder place : Location} {name : Text}

/-! ## The steps of a stage -/

section Steps

variable (hfolder : folder ∈ outputs) (hproper : folder.Proper)
  (hshort : exact → ∀ part ∈ folder.dropLast, Utf8.size part ≤ nameLimit)
include hfolder hproper hshort

theorem repeats_makeFolders :
    Repeats (Scope.within base outputs exact) (makeFolders (Path.ofLocation folder)) :=
  .makeFolders hproper (fun _ habove => ⟨folder, hfolder, habove⟩) hshort

theorem repeats_publish (hname : IsName name) (text : Text) :
    Repeats (Scope.within base outputs exact)
      (publish (Path.ofLocation (folder ++ [name])) text) := by
  apply Repeats.publish (hproper.snoc hname)
  · exact ⟨folder, hfolder, name, rfl⟩
  · exact fun _ habove => ⟨folder, hfolder, habove⟩
  · exact hshort

theorem repeats_enhanceInto (hbase : base.WellFormed)
    (hinputs : ∀ location, IsInput plan base.tree base.home location →
      ∀ folder ∈ outputs, location.Apart folder)
    (hsource : Location.Proper (place ++ [name]))
    (hapart : ∀ folder ∈ outputs, place.Apart folder) (mode : ErrorMode) :
    Repeats (Scope.within base outputs exact)
      (enhanceInto (Path.ofLocation folder) (Path.ofLocation (place ++ [name])) mode) := by
  have hname : IsName name := hsource name (by simp)
  have hinside : ∀ folder ∈ outputs, Location.Apart (place ++ [name]) folder :=
    fun folder hfolder => (hapart folder hfolder).inside name
  have hfound : Stable (Scope.within base outputs exact) _ := stable_foundAt hsource hinside
  have henhanced : Stable (Scope.within base outputs exact) _ :=
    stable_enhancedAt hsource hinside hbase hinputs mode
  rw [enhanceInto_eq, Path.name_ofLocation, Path.child_ofLocation hname]
  refine (Repeats.report _).bind fun _ _ _ _ _ => ?_
  refine (Repeats.read hfound).bind fun _ _ _ _ _ => ?_
  refine (Repeats.read henhanced).bind fun _ expansion _ _ _ => ?_
  refine (Repeats.reportAll _).bind fun _ _ _ _ _ => ?_
  refine (repeats_publish hfolder hproper hshort hname _).bind fun _ _ _ _ _ => ?_
  exact Repeats.pure _

theorem repeats_renderPage {shell : Shell} (hsettled : shell.template.Settled)
    (htemplate : ∀ folder ∈ outputs, Location.Apart shell.template.parts folder)
    (hsource : Location.Proper (place ++ [name]))
    (hapart : ∀ folder ∈ outputs, place.Apart folder) (convert : Text → Text) :
    Repeats (Scope.within base outputs exact)
      (renderPage convert shell (Path.ofLocation folder) (Path.ofLocation (place ++ [name]))) := by
  have hpage : IsName (pageName (Path.ofLocation (place ++ [name]))) := by
    apply isName_pageName
    rw [Path.name_ofLocation]
    exact (hsource name (by simp)).noSlash
  have hinside : ∀ folder ∈ outputs, Location.Apart (place ++ [name]) folder :=
    fun folder hfolder => (hapart folder hfolder).inside name
  have hfound : Stable (Scope.within base outputs exact) _ := stable_foundAt hsource hinside
  have htext : Stable (Scope.within base outputs exact) _ :=
    stable_pageAt hsource hinside hsettled htemplate convert
  have htarget : (Path.ofLocation folder).child
      ((Path.ofLocation (place ++ [name])).stem ++ (".html" : Text)) =
      Path.ofLocation (folder ++ [pageName (Path.ofLocation (place ++ [name]))]) :=
    Path.child_ofLocation hpage
  rw [renderPage_eq, htarget]
  refine (Repeats.read hfound).bind fun _ _ _ _ _ => ?_
  refine (Repeats.report _).bind fun _ _ _ _ _ => ?_
  refine (Repeats.read htext).bind fun _ page _ _ _ => ?_
  refine (repeats_publish hfolder hproper hshort hpage _).bind fun _ _ _ _ _ => ?_
  exact Repeats.pure _

end Steps

/-! ## The stages -/

/-- The folders that a plan writes. -/
def outputsOf (plan : Plan) : List Location := [plan.enhanced.parts, plan.site.parts]

/-- No name above the last one is too long, on the way to the folders that are written. -/
def ShortAbove (plan : Plan) : Prop :=
  ∀ folder ∈ outputsOf plan, ∀ part ∈ folder.dropLast, Utf8.size part ≤ nameLimit

theorem Secluded.source {tree : FileTree} {home : Location}
    (h : Secluded request plan tree home) :
    ∀ folder ∈ outputsOf plan, Location.Apart plan.source.parts folder :=
  List.forall_mem_cons.mpr ⟨h.sourceEnhanced, List.forall_mem_singleton.mpr h.sourceSite⟩

theorem Secluded.input {tree : FileTree} {home : Location} (h : Secluded request plan tree home)
    (location : Location) (hinput : IsInput plan tree home location) :
    ∀ folder ∈ outputsOf plan, location.Apart folder :=
  List.forall_mem_cons.mpr ⟨(h.inputs location hinput).1,
    List.forall_mem_singleton.mpr (h.inputs location hinput).2⟩

theorem proper_of_listed {paths : List Path} (hwf : before.WellFormed) (hproper : folder.Proper)
    (h : before.tree.list before.home (Path.ofLocation folder) ".md" = .ok paths) {path : Path}
    (hpath : path ∈ paths) :
    ∃ name, path = Path.ofLocation (folder ++ [name]) ∧ Location.Proper (folder ++ [name]) := by
  rcases of_list hproper h with rfl | rfl
  · cases hpath
  · obtain ⟨name, hname, rfl⟩ := List.mem_map.mp hpath
    exact ⟨name, rfl, hwf.tree.proper _ (mem_namesWith.mp hname).1⟩

/-- The files of the rendering stage are listed again as they were. -/
theorem list_again {convert : Text → Text} (hbase : base.WellFormed)
    (henhanced : plan.enhanced.Settled)
    (hapart : Location.Apart plan.enhanced.parts plan.site.parts) {result : Except Failure Unit}
    (hgrown : Grown (IsTarget plan.site.parts pageName (plan.pages base)) (· <+: plan.site.parts)
      base after)
    (h : exec (renderAll convert plan.shell plan.site plan.enhanced) base = (result, after))
    (halong : Along after.tree base second) :
    second.tree.list second.home plan.enhanced ".md" =
      base.tree.list base.home plan.enhanced ".md" := by
  have hkept (location : Location) (hlocation : location.Apart plan.site.parts) :
      second.tree.get? location = base.tree.get? location :=
    halong.get?_eq (get?_of_apart hgrown hlocation)
  unfold renderAll at h
  rw [exec_bind, exec_listMarkdown] at h
  rw [halong.home]
  rcases hlisted : base.tree.list base.home plan.enhanced ".md" with error | _ | ⟨path, paths⟩
  · rw [hlisted] at h
    obtain ⟨-, rfl⟩ := Prod.mk.inj h
    rw [(halong.sameView (.refl _)).list, hlisted]
  · rw [hlisted] at h
    obtain ⟨-, rfl⟩ := Prod.mk.inj h
    rw [(halong.sameView (.refl _)).list, hlisted]
  · rw [henhanced.eq] at hlisted ⊢
    obtain ⟨hfits, hfolder⟩ :=
      folder_of_list henhanced.proper (List.cons_ne_nil path paths) hlisted
    rw [← hlisted]
    refine list_congr hbase.tree halong.wellFormed.tree henhanced.proper hfits ?_ ?_ ?_ _
    · rw [hfolder]
      rfl
    · exact hkept _ hapart
    · exact fun name => hkept _ (hapart.inside name)

section Stages

variable (hbase : base.WellFormed) (hplanned : Planned request settings plan)
  (hname : ∀ name ∈ plan.name, '/' ∉ name) (hshort : exact → ShortAbove plan)
include hbase hplanned hname hshort

theorem repeats_enhanceStage (hsecluded : Secluded request plan base.tree base.home)
    (hfits : plan.source.Fits) (hthere : (base.tree.get? plan.source.parts).isSome) :
    Repeats (Scope.within base (outputsOf plan) exact) plan.enhanceStage := by
  have hmem : plan.enhanced.parts ∈ outputsOf plan := List.mem_cons_self
  have hshort' := fun hexact => hshort hexact _ hmem
  have hmake : Repeats (Scope.within base (outputsOf plan) exact) (makeFolders plan.enhanced) := by
    rw [hplanned.enhanced.eq]
    exact repeats_makeFolders hmem hplanned.enhanced.proper hshort'
  have hinto (name : Text) (hsource : Location.Proper (plan.source.parts ++ [name])) :
      Repeats (Scope.within base (outputsOf plan) exact)
        (enhanceInto plan.enhanced (Path.ofLocation (plan.source.parts ++ [name])) plan.mode) := by
    rw [hplanned.enhanced.eq]
    exact repeats_enhanceInto hmem hplanned.enhanced.proper hshort' hbase hsecluded.input hsource
      hsecluded.source plan.mode
  unfold Plan.enhanceStage
  split
  · cases hone : plan.name with
    | some name =>
      have hslash := hname name hone
      have hsource : Location.Proper (plan.source.parts ++ [name ++ (".md" : Text)]) :=
        hplanned.source.proper.snoc (isEnding_md.isName hslash)
      dsimp only
      rw [enhanceOne_eq, child_md hplanned.source hslash]
      refine (Repeats.read (stable_foundAt hsource fun folder hfolder =>
        (hsecluded.source folder hfolder).inside _)).bind fun _ _ _ _ _ => ?_
      exact hmake.bind fun _ _ _ _ _ => hinto _ hsource
    | none =>
      dsimp only
      unfold enhanceAll
      rw [listMarkdown_eq]
      have hlist : Stable (Scope.within base (outputsOf plan) exact) (markdownAt plan.source) := by
        rw [hplanned.source.eq] at hfits ⊢
        exact stable_markdownAt hplanned.source.proper hsecluded.source hfits hthere
      refine (Repeats.read hlist).bind fun first paths listed hfirst hpaths => ?_
      rw [exec_read] at hpaths
      have hlisted := mapError_eq_ok_iff.mp (Prod.mk.inj hpaths).1
      rw [hplanned.source.eq] at hlisted
      cases paths with
      | nil => exact (Repeats.report _).bind fun _ _ _ _ _ => Repeats.pure 0
      | cons path paths =>
        refine hmake.bind fun _ _ _ _ _ => Repeats.foldlM (fun source hsource errors => ?_) 0
        obtain ⟨name, rfl, hproper⟩ :=
          proper_of_listed hfirst.wellFormed hplanned.source.proper hlisted hsource
        exact (hinto name hproper).bind fun _ count _ _ _ => Repeats.pure _
  · exact Repeats.pure 0

theorem recurs_renderStage {convert : Text → Text}
    (hapart : Location.Apart plan.enhanced.parts plan.site.parts)
    (htemplate : Location.Apart plan.shell.template.parts plan.site.parts) :
    Recurs exact (plan.renderStage convert) base := by
  intro result after second h halong
  have hgrown := renderStage_grown hbase hplanned.enhanced hplanned.site h
  have hpage (name : Text) (hsource : Location.Proper (plan.enhanced.parts ++ [name])) :
      Repeats (Scope.within base [plan.site.parts] exact)
        (discard (renderPage convert plan.shell plan.site
          (Path.ofLocation (plan.enhanced.parts ++ [name])))) := by
    rw [hplanned.site.eq]
    refine (repeats_renderPage List.mem_cons_self hplanned.site.proper
      (fun hexact => hshort hexact _ (by simp [outputsOf])) hplanned.template
      (List.forall_mem_singleton.mpr htemplate) hsource
      (List.forall_mem_singleton.mpr hapart) convert).discard
  unfold Plan.renderStage at h ⊢
  split at h
  · rename_i hrenders
    rw [if_pos hrenders]
    cases hone : plan.name with
    | some name =>
      rw [hone] at h
      have hslash := hname name hone
      have hsource : Location.Proper (plan.enhanced.parts ++ [name ++ (".md" : Text)]) :=
        hplanned.enhanced.proper.snoc (isEnding_md.isName hslash)
      dsimp only at h ⊢
      rw [child_md hplanned.enhanced hslash] at h ⊢
      exact (hpage _ hsource).recurs (.refl hbase) h halong
    | none =>
      rw [hone] at h
      dsimp only at h ⊢
      have hlist := list_again hbase hplanned.enhanced hapart hgrown h halong
      unfold renderAll at h ⊢
      rw [exec_bind, exec_listMarkdown] at h ⊢
      rw [hlist]
      rcases hlisted : base.tree.list base.home plan.enhanced ".md" with error | paths
      · rw [hlisted] at h
        obtain ⟨rfl, rfl⟩ := Prod.mk.inj h
        exact ⟨_, _, rfl, fun _ => rfl, halong⟩
      · rw [hlisted] at h
        rw [hplanned.enhanced.eq] at hlisted
        suffices hrest : Repeats (Scope.within base [plan.site.parts] exact) _ from
          hrest.recurs (.refl hbase) h halong
        cases paths with
        | nil => exact Repeats.report _
        | cons path paths =>
          refine Repeats.forM fun source hsource => ?_
          obtain ⟨name, rfl, hproper⟩ :=
            proper_of_listed hbase hplanned.enhanced.proper hlisted hsource
          exact hpage name hproper
  · rename_i hrenders
    rw [if_neg hrenders]
    obtain ⟨rfl, rfl⟩ := Prod.mk.inj h
    exact ⟨_, _, rfl, rfl, halong⟩

omit hname hshort in
theorem grown_within {convert : Text → Text} {result : Except Failure Nat}
    (h : exec (plan.run convert) base = (result, after)) :
    Grown (IsInside (outputsOf plan)) (IsAbove (outputsOf plan)) base after := by
  obtain ⟨middle, hfirst, hsecond⟩ := grown_of_run hbase hplanned h
  have henhanced : plan.enhanced.parts ∈ outputsOf plan := by simp [outputsOf]
  have hsite : plan.site.parts ∈ outputsOf plan := by simp [outputsOf]
  exact (grown_of_isTarget henhanced hfirst).trans (grown_of_isTarget hsite hsecond)

theorem recurs_run {convert : Text → Text} (hsecluded : Secluded request plan base.tree base.home)
    (hfits : plan.source.Fits) (hthere : (base.tree.get? plan.source.parts).isSome) :
    Recurs exact (plan.run convert) base := by
  have hrepeats : Repeats (Scope.within base (outputsOf plan) exact) plan.enhanceStage :=
    repeats_enhanceStage hbase hplanned hname hshort hsecluded hfits hthere
  rw [Plan.run_eq]
  simp only [bind_pure_comp]
  refine hrepeats.bind_recurs (.refl hbase) ?_ ?_
  · intro errors middle henhance result after hrender
    have hmiddle := (hrepeats.grown (.refl hbase) henhance).wellFormed
    rw [exec_map] at hrender
    obtain ⟨-, rfl⟩ := Prod.mk.inj hrender
    have hsite : plan.site.parts ∈ outputsOf plan := by simp [outputsOf]
    exact grown_of_isTarget hsite (renderStage_grown hmiddle hplanned.enhanced hplanned.site rfl)
  · intro errors middle henhance
    have hmiddle := (hrepeats.grown (.refl hbase) henhance).wellFormed
    exact (recurs_renderStage hmiddle hplanned hname hshort hsecluded.enhancedSite
      (hsecluded.inputs _ .template).2).map _

end Stages

/-! ## The command -/

section Settings

variable {tree other : FileTree} {home : Location}

theorem configAt_congr {path : Path} {config : Bindings} (htree : tree.WellFormed)
    (hother : other.WellFormed) (hsettled : path.Settled)
    (hsame : tree.get? path.parts = other.get? path.parts)
    (h : configAt tree home path = .ok config) : configAt other home path = .ok config := by
  rw [← hsettled.resolve] at hsame
  unfold configAt at h ⊢
  split at h
  · cases h
  · cases h
  · split at h
    · cases h
    · rename_i text htext
      have htext' := readText_congr hother htree hsettled.proper hsame htext
      obtain ⟨entry, hentry⟩ := exists_of_readText htext'
      rw [hentry, htext']
      exact h

/-- Settings that could be read can be read again, if the config file is as it was. -/
theorem settings_congr (htree : tree.WellFormed) (hother : other.WellFormed) (hhome : home.Proper)
    (hconfig : ∀ written ∈ request.config, ∀ path,
      Path.settle home (Path.ofLocation home) written = .ok path →
      tree.get? path.parts = other.get? path.parts)
    (h : request.settings tree home = .ok settings) :
    request.settings other home = .ok settings := by
  unfold Request.settings at h ⊢
  obtain ⟨written, hwritten, h⟩ := bind_eq_ok_iff.mp h
  obtain ⟨path, hpath, h⟩ := bind_eq_ok_iff.mp h
  obtain ⟨base, hbase, h⟩ := bind_eq_ok_iff.mp h
  have hmem : written ∈ request.config := by
    cases hrequest : request.config with
    | none =>
      rw [hrequest] at hwritten
      cases hwritten
    | some value =>
      rw [hrequest] at hwritten
      exact congrArg some (Except.ok.inj hwritten)
  have hsettle := mapError_eq_ok_iff.mp hpath
  have hsettled := (Path.settled_of_settle hhome
    (fun part hpart => .inr (hhome part hpart)) hsettle).1
  have hagain : settingsAt other home path = .ok base := by
    have hfound := mapError_eq_ok_iff.mp hbase
    unfold settingsAt at hfound ⊢
    obtain ⟨config, hread, hsettings⟩ := bind_eq_ok_iff.mp hfound
    exact bind_eq_ok_iff.mpr ⟨config,
      configAt_congr htree hother hsettled (hconfig written hmem path hsettle) hread, hsettings⟩
  refine bind_eq_ok_iff.mpr ⟨written, hwritten, bind_eq_ok_iff.mpr ⟨path, hpath, ?_⟩⟩
  exact bind_eq_ok_iff.mpr ⟨base, mapError_eq_ok_iff.mpr hagain, h⟩

end Settings

/-- The folder of the sources is there. -/
theorem IsPlan.source_there (hplan : IsPlan request before settings plan)
    (hwf : before.WellFormed) :
    plan.source.Fits ∧ (before.tree.get? plan.source.parts).isSome := by
  have hsource := (planned_of_plan hwf hplan.planned).source
  obtain ⟨entry, hentry⟩ := hplan.sourceFound
  obtain ⟨hfits, hthere⟩ := (lookAt_eq_some_iff hwf.tree hsource.proper).mp hentry
  rw [hsource.resolve] at hthere
  rw [hthere]
  exact ⟨hfits, rfl⟩

/-- What a secluded build leaves has the same plan. -/
theorem IsPlan.again (hplan : IsPlan request before settings plan) (hwf : before.WellFormed)
    (hsecluded : Secluded request plan before.tree before.home)
    (hgrown : Grown (IsInside (outputsOf plan)) (IsAbove (outputsOf plan)) before after) :
    IsPlan request after settings plan := by
  have hkept (location : Location) (hapart : ∀ folder ∈ outputsOf plan, location.Apart folder) :
      after.tree.get? location = before.tree.get? location :=
    hgrown.tree.get?_eq (not_isInside hapart) (not_isAbove hapart)
  have hsource := (planned_of_plan hwf hplan.planned).source
  obtain ⟨hsettled, hplanned, entry, hentry⟩ := hplan
  rw [lookAt_eq_some_iff hwf.tree hsource.proper] at hentry
  refine ⟨?_, ?_, entry, ?_⟩
  · rw [hgrown.home]
    refine settings_congr hwf.tree hgrown.wellFormed.tree hwf.home_proper ?_ hsettled
    intro written hwritten path hpath
    obtain ⟨henhanced, hsite⟩ := hsecluded.config written hwritten path hpath
    exact (hkept _ (List.forall_mem_cons.mpr
      ⟨henhanced, List.forall_mem_singleton.mpr hsite⟩)).symm
  · rw [hgrown.home]
    exact hplanned
  · rw [lookAt_eq_some_iff hgrown.wellFormed.tree hsource.proper, hgrown.home, hsource.resolve,
      hkept _ hsecluded.source]
    rw [hsource.resolve] at hentry
    exact hentry

/-- A run without a plan changes nothing but the console. -/
theorem exec_run_of_unplanned {texts : List Text} {environment : Environment}
    (hnone : environment.watching ≠ .missing → ∀ arguments, grammar.parse texts = .ok arguments →
      ∀ settings plan, ¬ IsPlan (requestOf arguments) before settings plan) (start : Debounce τ) :
    ∃ console, (exec (run environment start texts) before).2 = { before with console } := by
  cases hparse : grammar.parse texts with
  | ok arguments =>
    exact (outcome_of_not_isPlan hparse (fun hstart => hnone hstart arguments hparse) start).2
  | error stop =>
    unfold run withWatching withArguments
    rw [hparse]
    split
    · exact ⟨_, rfl⟩
    · cases stop with
      | help => exact ⟨_, rfl⟩
      | refused error => exact ⟨_, rfl⟩

/-! ## Alike results -/

theorem concluded_out (console : Console) (result : Except Failure Nat) :
    (concluded console result).out = console.out := by
  unfold concluded
  split
  · rfl
  · simp [Console.report, Console.reportAll, Console.noteOf]
  · simp [Console.report, Console.reportAll, Console.noteOf]

theorem exitCode_of_alike {result other : Except Failure Nat} (h : Alike exact result other) :
    exitCode other = exitCode result := by
  rcases result with failure | errors
  · rcases other with failure' | errors'
    · rfl
    · exact absurd h id
  · rcases other with failure' | errors'
    · exact absurd h id
    · rw [show errors = errors' from h]

theorem eq_of_alike {result other : Except Failure Nat} (h : Alike exact result other)
    (hexact : exact) :
    other = result := by
  rcases result with failure | errors
  · rcases other with failure' | errors'
    · exact congrArg Except.error (h hexact).symm
    · exact absurd h id
  · rcases other with failure' | errors'
    · exact absurd h id
    · exact congrArg Except.ok (show errors = errors' from h).symm

/-- The runs that are to be repeated: they do not watch, build one page of the folder of sources or
all, and are secluded. -/
structure IsRepeatable (texts : List Text) (before : Workspace) : Prop where
  once : ∀ arguments, grammar.parse texts = .ok arguments → arguments.has "watch" = false
  name : ∀ arguments, grammar.parse texts = .ok arguments → ∀ name ∈ arguments.name, '/' ∉ name
  secluded : ∀ arguments settings plan, grammar.parse texts = .ok arguments →
    IsPlan (requestOf arguments) before settings plan →
    Secluded (requestOf arguments) plan before.tree before.home

/-- **Building again changes nothing.** The second run has the same exit code, leaves every entry as
it was and prints the same to the output stream. It prints the same to the error stream too, unless
a name on the way to a folder of the outputs is too long. -/
theorem rebuild_same {texts : List Text} {environment : Environment} {start : Debounce τ}
    {result result' : Except Failure (Progress τ)} {after' : Workspace} (hwf : before.WellFormed)
    (hrepeatable : IsRepeatable texts before)
    (hfirst : exec (run environment start texts) before = (result, after))
    (hsecond : exec (run environment start texts) { after with console := before.console } =
      (result', after')) :
    result' = result ∧ SameView after.tree after'.tree ∧ after'.console.out = after.console.out ∧
      ((∀ arguments settings plan, grammar.parse texts = .ok arguments →
          IsPlan (requestOf arguments) before settings plan → ShortAbove plan) →
        after'.console = after.console) := by
  by_cases hplan : environment.watching ≠ .missing ∧ ∃ arguments settings plan,
      grammar.parse texts = .ok arguments ∧ IsPlan (requestOf arguments) before settings plan
  · obtain ⟨hstart, arguments, settings, plan, hparse, hplan⟩ := hplan
    have hwatch := hrepeatable.once arguments hparse
    have hsecluded := hrepeatable.secluded arguments settings plan hparse hplan
    have hplanned := planned_of_plan hwf hplan.planned
    have hname : ∀ name ∈ plan.name, '/' ∉ name := by
      intro name hmem
      rw [hplanned.name] at hmem
      exact hrepeatable.name arguments hparse name (Option.filter_eq_some_iff.mp hmem).1
    have hbase : (prepared arguments before).WellFormed := wellFormed_prepared hwf
    rw [exec_run_of_isPlan hstart hparse hwatch hplan start, exec_execute] at hfirst
    rcases hrun : exec (plan.run environment.convert) (prepared arguments before) with
      ⟨counted, carried⟩
    rw [hrun] at hfirst
    obtain ⟨rfl, rfl⟩ := Prod.mk.inj hfirst
    have hgrown : Grown (IsInside (outputsOf plan)) (IsAbove (outputsOf plan)) before
        { carried with console := before.console } := by
      obtain ⟨hcarried, hhome, htree⟩ := grown_within hbase hplanned hrun
      exact ⟨hcarried.printed _, hhome, htree⟩
    -- the second run has the same plan, and begins with the same console
    have hbegin : Along carried.tree (prepared arguments before)
        (prepared arguments { carried with console := before.console }) :=
      ⟨hgrown.home, rfl, hgrown.wellFormed.printed _, fun _ => .inl rfl⟩
    obtain ⟨hfits, hthere⟩ := hplan.source_there hwf
    obtain ⟨counted', carried', hagain, halike, halong⟩ :=
      recurs_run hbase hplanned hname (fun hshort : ShortAbove plan => hshort) hsecluded
        hfits hthere hrun hbegin
    dsimp only [finished] at hsecond
    rw [exec_run_of_isPlan hstart hparse hwatch (hplan.again hwf hsecluded hgrown) start,
      exec_execute, hagain] at hsecond
    obtain ⟨rfl, rfl⟩ := Prod.mk.inj hsecond
    refine ⟨?_, ?_, ?_, ?_⟩
    · rw [exitCode_of_alike halike]
    · exact halong.sameView (.refl _)
    · show (concluded carried'.console counted').out = (concluded carried.console counted).out
      rw [concluded_out, concluded_out, halong.console]
    · intro hshort
      have hsame := eq_of_alike halike (hshort arguments settings plan hparse hplan)
      show concluded carried'.console counted' = concluded carried.console counted
      rw [hsame, halong.console]
  · obtain ⟨console, hsame⟩ := exec_run_of_unplanned
      (fun hstart arguments hparse settings plan h =>
        hplan ⟨hstart, arguments, settings, plan, hparse, h⟩) start
    rw [hfirst] at hsame
    obtain rfl : after = { before with console } := hsame
    obtain ⟨rfl, rfl⟩ := Prod.mk.inj (hfirst.symm.trans hsecond)
    exact ⟨rfl, .refl _, rfl, fun _ => rfl⟩

/-! ## Two books -/

theorem isRepeatable_of_plan {texts : List Text} (hparse : grammar.parse texts = .ok arguments)
    (hwatch : arguments.has "watch" = false) (hname : arguments.name = none)
    (hplan : ((requestOf arguments).settings before.tree before.home).map
      ((requestOf arguments).plan before.home) = .ok (.ok plan))
    (hsecluded : Secluded (requestOf arguments) plan before.tree before.home) :
    IsRepeatable texts before := by
  have hsame {found : Arguments} (h : grammar.parse texts = .ok found) : found = arguments :=
    Except.ok.inj (h.symm.trans hparse)
  refine ⟨?_, ?_, ?_⟩
  · intro found h
    rw [hsame h]
    exact hwatch
  · intro found h name hmem
    rw [hsame h, hname] at hmem
    cases hmem
  · intro found settings plan' h hfound
    obtain rfl := hsame h
    rw [hfound.settled] at hplan
    obtain rfl : plan' = plan := Except.ok.inj (hfound.planned.symm.trans (Except.ok.inj hplan))
    exact hsecluded

/-- A small book with the given sources. -/
def plainBook (sources : List (Location × Entry)) : Workspace where
  home := []
  tree := ⟨
    (["tools"], .folder) ::
    (["tools", "build.conf"], .file (Utf8.encode
      "src_dir=s\npreprocess_dir=e\nbuild_dir=b\ntemplate=t\n")) ::
    (["t"], .file (Utf8.encode "\x7b\x7bbody\x7d\x7d")) ::
    (["s"], .folder) :: sources⟩

/-- What such a book reads, and its site. -/
def plainPlaces : List Location :=
  [["s"], ["b"], ["t"], ["tools", "preprocess.conf"], ["tools", "build.conf"]]

theorem config_plainBook {written : Text} {path : Path}
    (hconfig : request.config = some "tools/build.conf") (hwritten : written ∈ request.config)
    (hpath : Path.settle [] (Path.ofLocation []) written = .ok path) :
    path = .ofLocation ["tools", "build.conf"] := by
  obtain rfl := Option.some.inj (hconfig.symm.trans hwritten)
  have hsettle : Path.settle [] (Path.ofLocation []) "tools/build.conf" =
      .ok (Path.ofLocation ["tools", "build.conf"]) := by decide
  exact Except.ok.inj (hpath.symm.trans hsettle)

/-- What the definitions of such a book name is apart from the folders that are written. -/
def IncludesApart (sources : List (Location × Entry)) (enhanced : Location) : Prop :=
  ∀ text, (plainBook sources).tree.readText [] definitionsPath.route = .ok text →
    ∀ written ∈ Definitions.includes text,
      (includedAt [] written).Apart enhanced ∧ (includedAt [] written).Apart ["b"]

theorem includesApart_of_none {sources : List (Location × Entry)} {enhanced : Location}
    (hnone : (plainBook sources).tree.lookAt [] definitionsPath.route = .ok none) :
    IncludesApart sources enhanced := by
  intro text hread
  obtain ⟨entry, hentry⟩ := exists_of_readText hread
  exact nomatch hnone.symm.trans hentry

theorem secluded_plainBook {sources : List (Location × Entry)} {enhanced : Location}
    (hconfig : request.config = some "tools/build.conf")
    (hincludes : IncludesApart sources enhanced)
    (hapart : ∀ location ∈ plainPlaces, location.Apart enhanced) :
    Secluded request { smallPlan with enhanced := .ofLocation enhanced } (plainBook sources).tree
      [] := by
  simp only [plainPlaces, List.forall_mem_cons] at hapart
  obtain ⟨hsource, hsite, htemplate, hdefinitions, hsettings, -⟩ := hapart
  refine ⟨hsource, (by decide : Location.Apart ["s"] ["b"]), ⟨hsite.2, hsite.1⟩, ?_, ?_⟩
  · rintro location (_ | _ | ⟨hread, hnamed⟩)
    · exact ⟨htemplate, (by decide : Location.Apart ["t"] ["b"])⟩
    · exact ⟨hdefinitions, (by decide : Location.Apart ["tools", "preprocess.conf"] ["b"])⟩
    · exact hincludes _ hread _ hnamed
  · intro written hwritten path hpath
    rw [config_plainBook hconfig hwritten hpath]
    exact ⟨hsettings, (by decide : Location.Apart ["tools", "build.conf"] ["b"])⟩

/-- A book whose second source cannot be read. -/
def haltedBook : Workspace :=
  plainBook [(["s", "x.md"], .file (Utf8.encode "x")), (["s", "y.md"], .folder)]

theorem isRepeatable_haltedBook : IsRepeatable [] haltedBook := by
  have hnone : haltedBook.tree.lookAt [] definitionsPath.route = .ok none := by decide +kernel
  have hapart : ∀ location ∈ plainPlaces, location.Apart ["e"] := by decide
  have hparse : grammar.parse [] = .ok {} := rfl
  have hplan : ((requestOf {}).settings haltedBook.tree haltedBook.home).map
      ((requestOf {}).plan haltedBook.home) =
        .ok (.ok { smallPlan with enhanced := .ofLocation ["e"] }) := by decide +kernel
  exact isRepeatable_of_plan hparse rfl rfl hplan
    (secluded_plainBook rfl (includesApart_of_none hnone) hapart)

theorem rebuild_same_haltedBook : haltedBook.WellFormed ∧ IsRepeatable [] haltedBook ∧
    haltedBook.tree.get? ["e", "x.md"] = none ∧
    ∃ after after', exec (run ⟨id, .ready⟩ (⟨0, 0⟩ : Debounce Nat) []) haltedBook =
        (.ok (.finished 1), after) ∧
      (after.tree.get? ["e", "x.md"]).isSome ∧
      exec (run ⟨id, .ready⟩ (⟨0, 0⟩ : Debounce Nat) [])
        { after with console := haltedBook.console } = (.ok (.finished 1), after') ∧
      SameView after.tree after'.tree ∧ after'.console.out = after.console.out := by
  have hwf : haltedBook.WellFormed := by decide
  have hcode : (exec (run ⟨id, .ready⟩ (⟨0, 0⟩ : Debounce Nat) []) haltedBook).1 =
      .ok (.finished 1) := by decide +kernel
  have hpage : ((exec (run ⟨id, .ready⟩ (⟨0, 0⟩ : Debounce Nat) []) haltedBook).2.tree.get?
      ["e", "x.md"]).isSome := by decide +kernel
  rcases hfirst : exec (run ⟨id, .ready⟩ (⟨0, 0⟩ : Debounce Nat) []) haltedBook with ⟨result, after⟩
  rw [hfirst] at hcode hpage
  obtain rfl : result = .ok (.finished 1) := hcode
  rcases hsecond : exec (run ⟨id, .ready⟩ (⟨0, 0⟩ : Debounce Nat) [])
    { after with console := haltedBook.console } with ⟨result', after'⟩
  obtain ⟨rfl, htree, hout, -⟩ := rebuild_same hwf isRepeatable_haltedBook hfirst hsecond
  exact ⟨hwf, isRepeatable_haltedBook, by decide, after, after', rfl, hpage, hsecond, htree, hout⟩

/-- A folder below one whose name is too long. -/
def longDir : Text := "out/" ++ List.replicate 300 'n' ++ "/e"

def longArguments : Arguments where
  given := ["preprocess-dir"]
  values := [("preprocess-dir", .text longDir)]

def longBook : Workspace := plainBook [(["s", "x.md"], .file (Utf8.encode "x"))]

/-- The first run makes the folder above, so the second one is stopped at another path. -/
theorem not_same_longBook :
    let first := exec (run ⟨id, .ready⟩ (⟨0, 0⟩ : Debounce Nat) ["--preprocess-dir", longDir])
      longBook
    let second := exec (run ⟨id, .ready⟩ (⟨0, 0⟩ : Debounce Nat) ["--preprocess-dir", longDir])
      { first.2 with console := longBook.console }
    longBook.WellFormed ∧ IsRepeatable ["--preprocess-dir", longDir] longBook ∧
      second.2.console.err ≠ first.2.console.err := by
  have hnone : longBook.tree.lookAt [] definitionsPath.route = .ok none := by decide +kernel
  have hapart : ∀ location ∈ plainPlaces, location.Apart ["out", List.replicate 300 'n', "e"] := by
    decide
  have hparse : grammar.parse ["--preprocess-dir", longDir] = .ok longArguments := by decide +kernel
  have hplan : ((requestOf longArguments).settings longBook.tree longBook.home).map
      ((requestOf longArguments).plan longBook.home) = .ok (.ok { smallPlan with
        enhanced := .ofLocation ["out", List.replicate 300 'n', "e"] }) := by decide +kernel
  refine ⟨by decide, ?_, by decide +kernel⟩
  exact isRepeatable_of_plan hparse rfl rfl hplan
    (secluded_plainBook rfl (includesApart_of_none hnone) hapart)

end Folio.Command.Build
