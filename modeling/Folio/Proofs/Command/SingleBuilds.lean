import Folio.Proofs.Command.PageByPage

/-!
# Single builds

Building the pages one after the other, each by a command of its own, does what building all of them
does, in whatever order the commands are given.

Main result: `build_page_by_page`.
-/

namespace Folio.Command.Build

open Folio.Build FileTree Workspace Run Watch Directive

variable {τ : Type} {environment : Environment} {start : Debounce τ}
  {before middle after : Workspace} {settings : Settings} {plan : Plan} {arguments : Arguments}
  {texts : List Text} {name : Text}

/-! ## The arguments -/

theorem parse_name (hdash : name.head? ≠ some '-') :
    grammar.parse [name] = .ok { name := some name } := by
  have hmark : name ≠ ("--" : Text) := by
    rintro rfl
    exact hdash rfl
  have hclassified : grammar.classifyAll [name] = .ok [.plain name] := by
    unfold Grammar.classifyAll Grammar.classify
    rw [if_neg hmark]
    simp [hdash, Grammar.classifyAll]
    rfl
  unfold Grammar.parse
  rw [hclassified]
  rfl

theorem full_nil : Full {} := ⟨rfl, rfl, rfl, rfl, nofun⟩

theorem IsPlan.named (h : IsPlan (requestOf {}) before settings plan) (hne : name ≠ []) :
    IsPlan (requestOf { name := some name }) before settings { plan with name := some name } := by
  obtain ⟨hsettled, hplanned, hfound⟩ := h
  obtain ⟨source, enhanced, site, template, hsource, henhanced, hsite, htemplate, rfl⟩ :=
    plan_eq_ok_iff.mp hplanned
  refine ⟨hsettled, plan_eq_ok_iff.mpr ⟨source, enhanced, site, template, hsource, henhanced, hsite,
    htemplate, ?_⟩, hfound⟩
  have hname : (requestOf { name := some name }).name.filter (· ≠ []) = some name :=
    Option.filter_eq_some_iff.mpr ⟨rfl, decide_eq_true hne⟩
  have hstages : (requestOf { name := some name }).stages = (requestOf {}).stages := rfl
  have hmode : (requestOf { name := some name }).mode = (requestOf {}).mode := rfl
  rw [hname, hstages, hmode]

theorem Secluded.named {tree : FileTree} {home : Location}
    (h : Secluded (requestOf {}) plan tree home) (name : Text) :
    Secluded (requestOf { name := some name }) { plan with name := some name } tree home := by
  refine ⟨h.sourceEnhanced, h.sourceSite, h.enhancedSite, ?_, h.config⟩
  rintro location (_ | _ | ⟨hread, hnamed⟩)
  · exact h.inputs _ .template
  · exact h.inputs _ .definitions
  · exact h.inputs _ (.included hread hnamed)

/-! ## Exit codes -/

theorem exec_eq_of_fst {α : Type} {run : Run α} {result : Except Failure α}
    (h : (exec run before).1 = result) : ∃ after, exec run before = (result, after) :=
  ⟨_, Prod.ext h rfl⟩

theorem ready_of_finished {code : Nat}
    (h : (exec (run environment start texts) before).1 = .ok (.finished code)) :
    environment.watching ≠ .missing := by
  intro hmissing
  unfold run withWatching at h
  rw [if_pos hmissing] at h
  cases h

section Ready

variable (hready : environment.watching ≠ .missing) (hparse : grammar.parse texts = .ok arguments)
  (hwatch : arguments.has "watch" = false)
  (hplan : IsPlan (requestOf arguments) before settings plan)
include hready hparse hwatch hplan

/-- A run with the exit code 0 has carried out its plan. -/
theorem carried_of_finished
    (h : (exec (run environment start texts) before).1 = .ok (.finished 0)) :
    ∃ after, exec (plan.run environment.convert) (prepared arguments before) = (.ok 0, after) := by
  rw [exec_run_of_isPlan hready hparse hwatch hplan start, exec_execute] at h
  rcases hrun : exec (plan.run environment.convert) (prepared arguments before) with
    ⟨failure | _ | errors, after⟩
  · rw [hrun] at h
    cases h
  · exact ⟨after, rfl⟩
  · rw [hrun] at h
    cases h

/-- A plan that can be carried out is carried out with the exit code 0. -/
theorem finished_of_performs {first last : Workspace → Prop}
    (h : Performs first (plan.run environment.convert) 0 last)
    (hfirst : first (prepared arguments before)) (start : Debounce τ) :
    ∃ after, exec (run environment start texts) before = (.ok (.finished 0), after) ∧
      last after := by
  obtain ⟨after, hrun, hlast⟩ := h _ hfirst
  refine ⟨after, ?_, hlast⟩
  rw [exec_run_of_isPlan hready hparse hwatch hplan start, exec_execute, hrun]
  rfl

end Ready

/-! ## Books -/

/-- What is asked of a book: its build is secluded and there are sources, the name of no source is
nothing but the ending or begins with a dash, and every Markdown file among the enhanced ones has
the name of a source. -/
structure IsBook (workspace : Workspace) (settings : Settings) (plan : Plan) : Prop where
  wellFormed : workspace.WellFormed
  planned : IsPlan (requestOf {}) workspace settings plan
  secluded : Secluded (requestOf {}) plan workspace.tree workspace.home
  nonempty : ∃ name, IsSource plan workspace.tree name
  names : ∀ name, IsSource plan workspace.tree name → name ≠ [] ∧ name.head? ≠ some '-'
  fresh : ∀ name, (workspace.tree.get? (enhancedPlace plan name)).isSome →
    IsSource plan workspace.tree name

namespace IsBook

variable (hbook : IsBook before settings plan)
include hbook

theorem taken : Planned (requestOf {}) settings plan :=
  planned_of_plan hbook.wellFormed hbook.planned.planned

theorem stages : plan.stages = .both := hbook.taken.stages.trans full_nil.stages

theorem mode : plan.mode = .strict := hbook.taken.mode.trans full_nil.mode

theorem unnamed : plan.name = none := hbook.taken.name.trans full_nil.name

theorem source_fits : plan.source.Fits := (hbook.planned.source_there hbook.wellFormed).1

/-- If the build of all pages succeeds, every page can be built. -/
theorem buildable_of_full (hsource : IsSource plan before.tree name)
    (h : (exec (run environment start []) before).1 = .ok (.finished 0)) :
    ∃ text page, Buildable environment.convert plan before.tree before.home name text page := by
  obtain ⟨after, hrun⟩ := carried_of_finished (ready_of_finished h) rfl rfl hbook.planned h
  have hgiven : ∀ single ∈ plan.name, single = name := by
    rw [hbook.unnamed]
    nofun
  have hbuildable : ∃ text page, Buildable environment.convert plan (prepared {} before).tree
      (prepared {} before).home name text page :=
    buildable_of_run (wellFormed_prepared hbook.wellFormed) hbook.taken hbook.stages hgiven
      hbook.mode hbook.secluded hbook.source_fits hsource (hbook.names name hsource).1 hrun
  exact hbuildable

/-- If the build of a page succeeds, it can be built. -/
theorem buildable_of_single (hsource : IsSource plan before.tree name)
    (h : (exec (run environment start [name]) before).1 = .ok (.finished 0)) :
    ∃ text page, Buildable environment.convert plan before.tree before.home name text page := by
  obtain ⟨hne, hdash⟩ := hbook.names name hsource
  have hplan := hbook.planned.named hne
  obtain ⟨after, hrun⟩ :=
    carried_of_finished (ready_of_finished h) (parse_name hdash) rfl hplan h
  have hgiven : ∀ single ∈ some name, single = name := fun _ hmem => (Option.some.inj hmem).symm
  have hbuildable : ∃ text page, Buildable environment.convert { plan with name := some name }
      (prepared { name := some name } before).tree (prepared { name := some name } before).home name
      text page :=
    buildable_of_run (wellFormed_prepared hbook.wellFormed)
      (planned_of_plan hbook.wellFormed hplan.planned) hbook.stages hgiven hbook.mode
      (hbook.secluded.named name) hbook.source_fits hsource hne hrun
  obtain ⟨text, page, henhances, hrenders, henhancedRoom, hsiteRoom⟩ := hbuildable
  exact ⟨text, page, henhances, hrenders, henhancedRoom, hsiteRoom⟩

section Builds

variable {content pages : Text → Text} (hready : environment.watching ≠ .missing)
  (hbuildable : ∀ name, IsSource plan before.tree name →
    Buildable environment.convert plan before.tree before.home name (content name) (pages name))
include hready hbuildable

theorem finished_full (start : Debounce τ) :
    ∃ after, exec (run environment start []) before = (.ok (.finished 0), after) ∧
      Built before plan content pages (fun location =>
        ∃ name, IsSource plan before.tree name ∧ IsPlaceOf plan name location) after :=
  finished_of_performs hready rfl rfl hbook.planned
    (performs_full hbook.wellFormed hbook.taken hbook.secluded hbook.nonempty hbuildable hbook.fresh
      hbook.stages hbook.unnamed hbook.source_fits fun name hsource => (hbook.names name hsource).1)
    ((Overlaid.of_base hbook.wellFormed).printed _) start

/-- From whatever other builds have left, the build of a page puts its files down. -/
theorem finished_single {done : Location → Prop} (h : Built before plan content pages done middle)
    (hsource : IsSource plan before.tree name) (start : Debounce τ) :
    ∃ after, exec (run environment start [name]) middle = (.ok (.finished 0), after) ∧
      Built before plan content pages (fun location =>
        IsPlaceOf plan name location ∨ done location) after := by
  obtain ⟨hne, hdash⟩ := hbook.names name hsource
  have hplan := (hbook.planned.again hbook.wellFormed hbook.secluded h.grown).named hne
  exact finished_of_performs hready (parse_name hdash) rfl hplan
    (performs_single hbook.wellFormed hbook.taken hbook.secluded hsource (hbuildable name hsource)
      hbook.stages hne) (h.printed _) start

end Builds

/-- A build of all pages that succeeds has put down the files of every source. -/
theorem built_of_full (h : exec (run environment start []) before = (.ok (.finished 0), after)) :
    ∃ content pages, environment.watching ≠ .missing ∧
      (∀ name, IsSource plan before.tree name →
        Buildable environment.convert plan before.tree before.home name (content name)
          (pages name)) ∧
      Built before plan content pages (fun location =>
        ∃ name, IsSource plan before.tree name ∧ IsPlaceOf plan name location) after := by
  have hfull : (exec (run environment start []) before).1 = .ok (.finished 0) := by rw [h]
  have hready := ready_of_finished hfull
  have hall : ∀ name, IsSource plan before.tree name → ∃ text page,
      Buildable environment.convert plan before.tree before.home name text page :=
    fun name hsource => hbook.buildable_of_full hsource hfull
  choose! content pages hbuildable using hall
  obtain ⟨last, hexec, hbuilt⟩ := hbook.finished_full hready hbuildable start
  obtain rfl : last = after := congrArg Prod.snd (hexec.symm.trans h)
  exact ⟨content, pages, hready, hbuildable, hbuilt⟩

theorem enhancedAt_of_full (h : exec (run environment start []) before = (.ok (.finished 0), after))
    (hsource : IsSource plan before.tree name) :
    ∃ text, enhancedAt (sourcePath plan name) plan.mode before.tree before.home = .ok ⟨text, []⟩ ∧
      after.tree.get? (enhancedPlace plan name) = some (.file (Utf8.encode text)) := by
  obtain ⟨content, pages, -, hbuildable, hafter⟩ := hbook.built_of_full h
  refine ⟨content name, (hbuildable name hsource).enhances, ?_⟩
  rw [hafter.file _ ⟨name, hsource, .inr rfl⟩, contentOf_enhancedPlace]

end IsBook

/-! ## One after the other -/

/-- The pages are built one after the other, each by a command of its own with a fresh console, and
every command succeeds. -/
inductive InTurn (environment : Environment) (start : Debounce τ) (console : Console) :
    List Text → Workspace → Workspace → Prop
  | nil (workspace : Workspace) : InTurn environment start console [] workspace workspace
  | cons {name : Text} {names : List Text} {before middle after : Workspace}
      (first : exec (run environment start [name]) before = (.ok (.finished 0), middle))
      (rest : InTurn environment start console names { middle with console } after) :
      InTurn environment start console (name :: names) before after

theorem IsBook.inTurn (hbook : IsBook before settings plan) {content pages : Text → Text}
    (hready : environment.watching ≠ .missing)
    (hbuildable : ∀ name, IsSource plan before.tree name →
      Buildable environment.convert plan before.tree before.home name (content name) (pages name))
    {names : List Text} (hnames : ∀ name ∈ names, IsSource plan before.tree name)
    {done : Location → Prop} (h : Built before plan content pages done middle) (start : Debounce τ)
    (console : Console) :
    ∃ after, InTurn environment start console names middle after ∧
      Built before plan content pages (fun location =>
        (∃ name ∈ names, IsPlaceOf plan name location) ∨ done location) after := by
  induction names generalizing middle done with
  | nil =>
    refine ⟨middle, .nil middle, ?_⟩
    simpa using h
  | cons name names ih =>
    obtain ⟨hsource, hrest⟩ := List.forall_mem_cons.mp hnames
    obtain ⟨next, hexec, hnext⟩ := hbook.finished_single hready hbuildable h hsource start
    obtain ⟨after, hturn, hafter⟩ := ih hrest (hnext.printed console)
    refine ⟨after, .cons hexec hturn, ?_⟩
    have hsame : (fun location => (∃ later ∈ names, IsPlaceOf plan later location) ∨
        IsPlaceOf plan name location ∨ done location) =
        fun location => (∃ later ∈ name :: names, IsPlaceOf plan later location) ∨
          done location := by
      funext location
      simp only [List.mem_cons, exists_eq_or_imp, eq_iff_iff]
      exact or_left_comm.trans or_assoc.symm
    rw [← hsame]
    exact hafter

/-- What is built for a page is told by its source and by what is read for every page. -/
theorem Buildable.unique {convert : Text → Text} {other : Workspace} {text page text' page' : Text}
    (hwf : before.WellFormed) (hother : other.WellFormed) (hhome : other.home = before.home)
    (htemplate : plan.shell.template.Settled) (hsource : IsSource plan before.tree name)
    (hsame : ∀ location, location = plan.source.parts ++ [name ++ (".md" : Text)] ∨
      IsInput plan before.tree before.home location →
      other.tree.get? location = before.tree.get? location)
    (h : Buildable convert plan before.tree before.home name text page)
    (h' : Buildable convert plan other.tree other.home name text' page') :
    text' = text ∧ page' = page := by
  have henhances := h'.enhances
  have hrenders := h'.renders
  rw [hhome] at henhances hrenders
  have henhances' := enhancedAt_congr hother.tree hwf.tree hwf.home_proper
    (hwf.tree.proper _ hsource) (hsame _ (.inl rfl)) (hsame _ (.inr .definitions))
    (fun read hread written hnamed => hsame _ (.inr (.included hread hnamed))) henhances
  obtain rfl : text' = text :=
    congrArg Expansion.text (Except.ok.inj (henhances'.symm.trans h.enhances))
  have hrenders' := wrap_congr (fun template hfound =>
    templateAt_congr hwf.tree hother.tree htemplate (hsame _ (.inr .template)) hfound) hrenders
  exact ⟨rfl, Except.ok.inj (hrenders'.symm.trans h.renders)⟩

/-- **Building page by page is building all pages.** The build of all pages succeeds exactly if each
page can be built by itself. Then the pages can be built one after the other, in any order, and the
tree that is left is the same. What is left for a page depends on its own source and on what is read
for every page. -/
theorem build_page_by_page (hbook : IsBook before settings plan) (environment : Environment)
    (start : Debounce τ) :
    ((exec (run environment start []) before).1 = .ok (.finished 0) ↔
      ∀ name, IsSource plan before.tree name →
        (exec (run environment start [name]) before).1 = .ok (.finished 0)) ∧
    ∀ after, exec (run environment start []) before = (.ok (.finished 0), after) →
      (∀ order : List Text, (∀ name, name ∈ order ↔ IsSource plan before.tree name) →
        ∃ last, InTurn environment start before.console order before last ∧
          SameView after.tree last.tree) ∧
      ∀ name, IsSource plan before.tree name → ∀ other settings' after',
        IsBook other settings' plan → other.home = before.home →
        (∀ location, location = plan.source.parts ++ [name ++ (".md" : Text)] ∨
          IsInput plan before.tree before.home location →
          other.tree.get? location = before.tree.get? location) →
        exec (run environment start []) other = (.ok (.finished 0), after') →
        ∀ location, IsPlaceOf plan name location →
          after'.tree.get? location = after.tree.get? location := by
  have hwf := hbook.wellFormed
  refine ⟨⟨fun hfull name hsource => ?_, fun hsingles => ?_⟩, fun after hfull => ⟨?_, ?_⟩⟩
  · obtain ⟨content, pages, hready, hbuildable, -⟩ := hbook.built_of_full (Prod.ext hfull rfl)
    obtain ⟨after, hexec, -⟩ := hbook.finished_single hready hbuildable (.of_base hwf) hsource start
    rw [hexec]
  · obtain ⟨first, hfirst⟩ := hbook.nonempty
    have hready := ready_of_finished (hsingles first hfirst)
    have hall := fun name hsource => hbook.buildable_of_single hsource (hsingles name hsource)
    choose! content pages hbuildable using hall
    obtain ⟨after, hexec, -⟩ := hbook.finished_full hready hbuildable start
    rw [hexec]
  · intro order horder
    obtain ⟨content, pages, hready, hbuildable, hafter⟩ := hbook.built_of_full hfull
    obtain ⟨last, hturn, hlast⟩ := hbook.inTurn hready hbuildable (fun name => (horder name).mp)
      (.of_base hwf) start before.console
    refine ⟨last, hturn, hafter.sameView ?_ ?_⟩
    · simpa only [horder, or_false] using hlast
    · obtain ⟨first, hfirst⟩ := hbook.nonempty
      intro folder hfolder
      simp only [outputsOf, List.mem_cons, List.not_mem_nil, or_false] at hfolder
      rcases hfolder with rfl | rfl
      · exact ⟨_, first, hfirst, .inr rfl⟩
      · exact ⟨_, first, hfirst, .inl rfl⟩
  · intro name hsource other settings' after' hother hhome hsame hfull' location hplace
    obtain ⟨content, pages, -, hbuildable, hafter⟩ := hbook.built_of_full hfull
    obtain ⟨content', pages', -, hbuildable', hafter'⟩ := hother.built_of_full hfull'
    have hsource' : IsSource plan other.tree name := by
      unfold IsSource
      rw [hsame _ (.inl rfl)]
      exact hsource
    have hunique := (hbuildable name hsource).unique hwf hother.wellFormed hhome
      hbook.taken.template hsource hsame (hbuildable' name hsource')
    rw [hafter.file location ⟨name, hsource, hplace⟩,
      hafter'.file location ⟨name, hsource', hplace⟩]
    rcases hplace with rfl | rfl
    · simp only [contentOf_pagePlace hbook.secluded.enhancedSite, hunique.2]
    · simp only [contentOf_enhancedPlace, hunique.1]

/-! ## Books with two sources -/

theorem mem_entries_of_isSome {tree : FileTree} {folder : Location}
    (h : (tree.get? (folder ++ [name])).isSome) : folder ++ [name] ∈ tree.entries.map Prod.fst := by
  have hne : folder ++ [name] ≠ [] := by simp
  unfold FileTree.get? at h
  rw [if_neg hne] at h
  obtain ⟨entry, hentry, hkey⟩ := List.lookup_isSome_iff.mp h
  rw [eq_of_beq hkey]
  exact List.mem_map_of_mem hentry

theorem isPlan_of_settings
    (hplan : ((requestOf {}).settings before.tree before.home).map
      ((requestOf {}).plan before.home) = .ok (.ok plan))
    (hfound : before.tree.lookAt before.home plan.source.route = .ok (some .folder)) :
    ∃ settings, IsPlan (requestOf {}) before settings plan := by
  obtain ⟨settings, hsettled, hplanned⟩ := map_eq_ok_iff.mp hplan
  exact ⟨settings, hsettled, hplanned, _, hfound⟩

/-- The plan of a small book does not depend on its sources. -/
theorem isPlan_plainBook {sources : List (Location × Entry)}
    (hwf : (plainBook sources).WellFormed) :
    ∃ settings, IsPlan (requestOf {}) (plainBook sources) settings smallPlan := by
  have hempty : (plainBook []).WellFormed := by decide
  have hplan : ((requestOf {}).settings (plainBook []).tree (plainBook []).home).map
      ((requestOf {}).plan (plainBook []).home) = .ok (.ok smallPlan) := by decide +kernel
  have hfound : (plainBook []).tree.lookAt (plainBook []).home smallPlan.source.route =
      .ok (some .folder) := rfl
  obtain ⟨settings, hsettled, hplanned, -⟩ := isPlan_of_settings hplan hfound
  refine ⟨settings, settings_congr hempty.tree hwf.tree hwf.home_proper ?_ hsettled, hplanned, _,
    rfl⟩
  intro written hwritten path hpath
  rw [config_plainBook rfl hwritten hpath]
  rfl

theorem isBook_plainBook {sources : List (Location × Entry)} (hwf : (plainBook sources).WellFormed)
    (hincludes : IncludesApart sources ["e"])
    (hsource : IsSource smallPlan (plainBook sources).tree name)
    (hnames : ∀ location ∈ (plainBook sources).tree.entries.map Prod.fst,
      location.dropLast = ["s"] → ∀ last ∈ location.getLast?,
        last ≠ (".md" : Text) ∧ last.head? ≠ some '-')
    (hfresh : ∀ location ∈ (plainBook sources).tree.entries.map Prod.fst,
      location.dropLast ≠ ["e"]) :
    ∃ settings, IsBook (plainBook sources) settings smallPlan := by
  have hapart : ∀ location ∈ plainPlaces, location.Apart ["e"] := by decide
  have hsecluded : Secluded (requestOf {}) smallPlan (plainBook sources).tree [] :=
    secluded_plainBook rfl hincludes hapart
  obtain ⟨settings, hplanned⟩ := isPlan_plainBook hwf
  refine ⟨settings, hwf, hplanned, hsecluded, ⟨name, hsource⟩, fun single hsingle => ?_,
    fun single hsome => ?_⟩
  · have hmem := mem_entries_of_isSome hsingle
    obtain ⟨hne, hdash⟩ := hnames _ hmem List.dropLast_concat _ List.getLast?_concat
    have hsingle : single ≠ [] := by
      rintro rfl
      exact hne rfl
    refine ⟨hsingle, fun hhead => hdash ?_⟩
    rw [List.head?_append_of_ne_nil _ hsingle]
    exact hhead
  · have hmem := mem_entries_of_isSome hsome
    exact absurd List.dropLast_concat (hfresh _ hmem)

/-- A book with two sources, the second one of which is given. -/
def pairBook (second : Text) : Workspace :=
  plainBook [(["s", "x.md"], .file (Utf8.encode "x")), (["s", "y.md"], .file (Utf8.encode second))]

theorem isSource_pairBook_iff {second : Text} :
    IsSource smallPlan (pairBook second).tree name ↔ name ∈ [("y" : Text), ("x" : Text)] := by
  constructor
  · intro h
    have hmem : [("s" : Text), name ++ (".md" : Text)] ∈
        ([["tools"], ["tools", "build.conf"], ["t"], ["s"],
          ["s", ("x" : Text) ++ (".md" : Text)], ["s", ("y" : Text) ++ (".md" : Text)]] :
          List (List Text)) := mem_entries_of_isSome h
    have hne : ("s" : Text) ≠ "tools" := by decide
    simp only [List.mem_cons, List.cons.injEq, List.append_left_inj, List.not_mem_nil, hne,
      reduceCtorEq, and_true, and_false, false_and, true_and, or_false, false_or] at hmem ⊢
    exact hmem.symm
  · intro h
    simp only [List.mem_cons, List.not_mem_nil, or_false] at h
    rcases h with rfl | rfl <;> rfl

theorem build_page_by_page_pairBook : (∃ settings, IsBook (pairBook "y") settings smallPlan) ∧
    (∃ settings, IsBook (pairBook "z") settings smallPlan) ∧
    (∀ name, IsSource smallPlan (pairBook "y").tree name →
      (exec (run ⟨id, .ready⟩ (⟨0, 0⟩ : Debounce Nat) [name]) (pairBook "y")).1 =
        .ok (.finished 0)) ∧
    ∃ after last after',
      exec (run ⟨id, .ready⟩ (⟨0, 0⟩ : Debounce Nat) []) (pairBook "y") =
        (.ok (.finished 0), after) ∧
      InTurn ⟨id, .ready⟩ (⟨0, 0⟩ : Debounce Nat) {} ["y", "x"] (pairBook "y") last ∧
      SameView after.tree last.tree ∧
      exec (run ⟨id, .ready⟩ (⟨0, 0⟩ : Debounce Nat) []) (pairBook "z") =
        (.ok (.finished 0), after') ∧
      after'.tree.get? ["b", "x.html"] = after.tree.get? ["b", "x.html"] := by
  have hfull : (exec (run ⟨id, .ready⟩ (⟨0, 0⟩ : Debounce Nat) []) (pairBook "y")).1 =
      .ok (.finished 0) := by decide +kernel
  have hfull' : (exec (run ⟨id, .ready⟩ (⟨0, 0⟩ : Debounce Nat) []) (pairBook "z")).1 =
      .ok (.finished 0) := by decide +kernel
  obtain ⟨settings, hbook⟩ : ∃ settings, IsBook (pairBook "y") settings smallPlan :=
    isBook_plainBook (by decide) (includesApart_of_none rfl)
      (isSource_pairBook_iff.mpr (.head _)) (by decide) (by decide)
  obtain ⟨settings', hbook'⟩ : ∃ settings, IsBook (pairBook "z") settings smallPlan :=
    isBook_plainBook (by decide) (includesApart_of_none rfl)
      (isSource_pairBook_iff.mpr (.head _)) (by decide) (by decide)
  obtain ⟨after, hexec⟩ := exec_eq_of_fst hfull
  obtain ⟨after', hexec'⟩ := exec_eq_of_fst hfull'
  obtain ⟨hsingles, hpages⟩ := build_page_by_page hbook ⟨id, .ready⟩ (⟨0, 0⟩ : Debounce Nat)
  obtain ⟨horders, halone⟩ := hpages after hexec
  obtain ⟨last, hturn, hsame⟩ := horders ["y", "x"] fun _ => isSource_pairBook_iff.symm
  refine ⟨⟨settings, hbook⟩, ⟨settings', hbook'⟩, hsingles.mp hfull, after, last, after', hexec,
    hturn, hsame, hexec', ?_⟩
  refine halone "x" (isSource_pairBook_iff.mpr (by decide)) (pairBook "z") settings' after' hbook'
    rfl ?_ hexec' _ (.inl rfl)
  rintro location (rfl | _ | _ | ⟨hread, -⟩)
  · rfl
  · rfl
  · rfl
  · obtain ⟨entry, hentry⟩ := exists_of_readText hread
    cases hentry

/-- A book with its site below a file that is not there. -/
def nestedBook : Workspace where
  home := []
  tree := ⟨[
    (["tools"], .folder),
    (["tools", "build.conf"], .file (Utf8.encode
      "src_dir=s\npreprocess_dir=e\nbuild_dir=tools/preprocess.conf/b\ntemplate=t\n")),
    (["t"], .file (Utf8.encode "\x7b\x7bbody\x7d\x7d")),
    (["s"], .folder),
    (["s", "x.md"], .file (Utf8.encode "x")),
    (["s", "y.md"], .file (Utf8.encode "y"))]⟩

def nestedPlan : Plan := { smallPlan with site := .ofLocation ["tools", "preprocess.conf", "b"] }

theorem outside_nestedBook {location : Location} (h : location = ["tools", "build.conf"] ∨
    IsInput nestedPlan nestedBook.tree nestedBook.home location) :
    ∀ folder ∈ outputsOf nestedPlan, ¬ folder <+: location := by
  rcases h with rfl | _ | _ | ⟨hread, -⟩
  · decide
  · decide
  · decide
  · obtain ⟨entry, hentry⟩ := exists_of_readText hread
    cases hentry

theorem not_inTurn_nestedBook :
    ¬ ∃ last, InTurn ⟨id, .ready⟩ (⟨0, 0⟩ : Debounce Nat) {} ["x", "y"] nestedBook last := by
  have hsecond : (exec (run ⟨id, .ready⟩ (⟨0, 0⟩ : Debounce Nat) ["y"])
      { (exec (run ⟨id, .ready⟩ (⟨0, 0⟩ : Debounce Nat) ["x"]) nestedBook).2 with
        console := {} }).1 = .ok (.finished 1) := by decide +kernel
  rintro ⟨last, hturn⟩
  cases hturn with
  | cons hfirst hrest =>
    cases hrest with
    | cons hnext _ =>
      rw [hfirst, hnext] at hsecond
      cases hsecond

/-- A book whose second source is included in the first one. -/
def includingBook (second : Text) : Workspace :=
  plainBook [(["s", "x.md"], .file (Utf8.encode "[[A]]")),
    (["s", "y.md"], .file (Utf8.encode second)),
    (["tools", "preprocess.conf"], .file (Utf8.encode "[[A]] = @file:../s/y.md\n"))]

theorem isSource_includingBook (second : Text) :
    IsSource smallPlan (includingBook second).tree "x" := rfl

theorem includesApart_of_read {sources : List (Location × Entry)}
    (hread : (plainBook sources).tree.readText [] definitionsPath.route =
      .ok "[[A]] = @file:../s/y.md\n") : IncludesApart sources ["e"] := by
  have hincludes : Definitions.includes "[[A]] = @file:../s/y.md\n" = [("../s/y.md" : Text)] := by
    decide +kernel
  intro text hfound written hnamed
  obtain rfl := Except.ok.inj (hread.symm.trans hfound)
  rw [hincludes, List.mem_singleton] at hnamed
  rw [hnamed]
  decide

/-- The text of the first page is another one if the second source is. -/
theorem enhanced_includingBook_ne {settings' : Settings} {after' : Workspace}
    (hbook : IsBook (includingBook "y") settings smallPlan)
    (hbook' : IsBook (includingBook "z") settings' smallPlan)
    (hexec : exec (run environment start []) (includingBook "y") = (.ok (.finished 0), after))
    (hexec' : exec (run environment start []) (includingBook "z") = (.ok (.finished 0), after')) :
    after'.tree.get? (enhancedPlace smallPlan "x") ≠
      after.tree.get? (enhancedPlace smallPlan "x") := by
  have hne : enhancedAt (sourcePath smallPlan "x") .strict (includingBook "z").tree [] ≠
      enhancedAt (sourcePath smallPlan "x") .strict (includingBook "y").tree [] := by decide +kernel
  obtain ⟨text, henhanced, hfile⟩ := hbook.enhancedAt_of_full hexec (isSource_includingBook "y")
  obtain ⟨text', henhanced', hfile'⟩ :=
    hbook'.enhancedAt_of_full hexec' (isSource_includingBook "z")
  rw [hfile, hfile']
  intro hsame
  obtain rfl : text' = text := encode_injective (Entry.file.inj (Option.some.inj hsame))
  exact hne (henhanced'.trans henhanced.symm)

/-- The build of a page can make a folder where a file is read for the next one, and a source can be
included in another. -/
theorem not_page_by_page :
    (∃ settings, IsPlan (requestOf {}) nestedBook settings nestedPlan) ∧
    AllApart (nestedPlan.source.parts :: outputsOf nestedPlan) ∧
    (∀ location : Location, location = ["tools", "build.conf"] ∨
      IsInput nestedPlan nestedBook.tree nestedBook.home location →
        ∀ folder ∈ outputsOf nestedPlan, ¬ folder <+: location) ∧
    (exec (run ⟨id, .ready⟩ (⟨0, 0⟩ : Debounce Nat) []) nestedBook).1 = .ok (.finished 0) ∧
    (¬ ∃ last, InTurn ⟨id, .ready⟩ (⟨0, 0⟩ : Debounce Nat) {} ["x", "y"] nestedBook last) ∧
    (∃ settings, IsBook (includingBook "y") settings smallPlan) ∧
    (∃ settings, IsBook (includingBook "z") settings smallPlan) ∧
    ∃ after after',
      exec (run ⟨id, .ready⟩ (⟨0, 0⟩ : Debounce Nat) []) (includingBook "y") =
        (.ok (.finished 0), after) ∧
      exec (run ⟨id, .ready⟩ (⟨0, 0⟩ : Debounce Nat) []) (includingBook "z") =
        (.ok (.finished 0), after') ∧
      after'.tree.get? (enhancedPlace smallPlan "x") ≠
        after.tree.get? (enhancedPlace smallPlan "x") := by
  have hplan : ((requestOf {}).settings nestedBook.tree nestedBook.home).map
      ((requestOf {}).plan nestedBook.home) = .ok (.ok nestedPlan) := by decide +kernel
  have hfound : nestedBook.tree.lookAt nestedBook.home nestedPlan.source.route =
      .ok (some .folder) := by decide +kernel
  have hapart : AllApart (nestedPlan.source.parts :: outputsOf nestedPlan) := by
    unfold AllApart
    decide
  have hfull : (exec (run ⟨id, .ready⟩ (⟨0, 0⟩ : Debounce Nat) []) nestedBook).1 =
      .ok (.finished 0) := by decide +kernel
  have hfirst : (exec (run ⟨id, .ready⟩ (⟨0, 0⟩ : Debounce Nat) []) (includingBook "y")).1 =
      .ok (.finished 0) := by decide +kernel
  have hsecond : (exec (run ⟨id, .ready⟩ (⟨0, 0⟩ : Debounce Nat) []) (includingBook "z")).1 =
      .ok (.finished 0) := by decide +kernel
  obtain ⟨settings, hbook⟩ : ∃ settings, IsBook (includingBook "y") settings smallPlan :=
    isBook_plainBook (by decide) (includesApart_of_read (by decide +kernel))
      (isSource_includingBook "y") (by decide) (by decide)
  obtain ⟨settings', hbook'⟩ : ∃ settings, IsBook (includingBook "z") settings smallPlan :=
    isBook_plainBook (by decide) (includesApart_of_read (by decide +kernel))
      (isSource_includingBook "z") (by decide) (by decide)
  obtain ⟨after, hexec⟩ := exec_eq_of_fst hfirst
  obtain ⟨after', hexec'⟩ := exec_eq_of_fst hsecond
  exact ⟨isPlan_of_settings hplan hfound, hapart, fun _ => outside_nestedBook, hfull,
    not_inTurn_nestedBook, ⟨settings, hbook⟩, ⟨settings', hbook'⟩, after, after', hexec, hexec',
    enhanced_includingBook_ne hbook hbook' hexec hexec'⟩

end Folio.Command.Build
