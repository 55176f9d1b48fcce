import Folio.Proofs.Build.Repetition
import Folio.Proofs.Command.Composition

/-!
# Secluded builds

A build is secluded if what it reads is apart from the folders that it writes. Then everything that
it finds at its beginning stays as it was, through all its steps and through further builds of the
same kind.
-/

namespace Folio.Build

open FileTree Workspace Run Directive

variable {base : Workspace} {outputs : List Location} {exact : Prop} {location : Location}
  {tree other : FileTree} {home : Location}

theorem wrap_congr {shell : Shell} {title body page : Text}
    (htemplate : ∀ template, templateAt tree home shell.template = .ok template →
      templateAt other home shell.template = .ok template)
    (h : shell.wrap tree home title body = .ok page) :
    shell.wrap other home title body = .ok page := by
  unfold Shell.wrap at h ⊢
  obtain ⟨template, hfound, hpage⟩ := bind_eq_ok_iff.mp h
  rw [htemplate template hfound]
  exact hpage

theorem enhancedAt_congr {mode : ErrorMode} {expansion : Expansion} (htree : tree.WellFormed)
    (hother : other.WellFormed) (hhome : home.Proper) (hproper : location.Proper)
    (hsource : tree.get? location = other.get? location)
    (hdefinitions : tree.get? (definitionsPath.resolve home) =
      other.get? (definitionsPath.resolve home))
    (hincluded : ∀ text, other.readText home definitionsPath.route = .ok text →
      ∀ written ∈ Definitions.includes text,
        tree.get? (includedAt home written) = other.get? (includedAt home written))
    (h : enhancedAt (Path.ofLocation location) mode tree home = .ok expansion) :
    enhancedAt (Path.ofLocation location) mode other home = .ok expansion := by
  rw [enhancedAt_eq_ok_iff] at h ⊢
  obtain ⟨text, definitions, htext, hfound, henhance⟩ := h
  refine ⟨text, definitions, ?_, ?_, henhance⟩
  · have hnames : ∀ part ∈ (Path.ofLocation location).parts, IsName part := hproper
    refine readText_congr hother htree hnames ?_ htext
    rw [Path.resolve_ofLocation hproper]
    exact hsource
  · exact definitionsAt_congr hother htree hhome hdefinitions hincluded hfound

/-! ## What can be read at any time -/

section Stable

variable (hproper : location.Proper) (hapart : ∀ folder ∈ outputs, location.Apart folder)
include hproper hapart

theorem stable_foundAt :
    Stable (Scope.within base outputs exact) (foundAt (Path.ofLocation location)) where
  kept {tree other} _ htree hother hagrees hagrees' h := by
    have hnames : ∀ part ∈ (Path.ofLocation location).parts, IsName part := hproper
    rw [foundAt_eq_ok_iff] at h ⊢
    obtain ⟨entry, hentry⟩ := h
    obtain ⟨hfits, hsome⟩ := (lookAt_eq_some_iff htree hnames).mp hentry
    rw [Path.resolve_ofLocation hproper, hagrees.get?_congr hagrees' hapart] at hsome
    refine ⟨entry, (lookAt_eq_some_iff hother hnames).mpr ⟨hfits, ?_⟩⟩
    rw [Path.resolve_ofLocation hproper]
    exact hsome
  view h := foundAt_of_sameView h _

theorem stable_readText {text : Text} (htree : tree.WellFormed) (hother : other.WellFormed)
    (hagrees : (Scope.within base outputs exact).Agrees tree)
    (hagrees' : (Scope.within base outputs exact).Agrees other)
    (h : tree.readText home (Path.ofLocation location).route = .ok text) :
    other.readText home (Path.ofLocation location).route = .ok text := by
  have hnames : ∀ part ∈ (Path.ofLocation location).parts, IsName part := hproper
  refine readText_congr hother htree hnames ?_ h
  rw [Path.resolve_ofLocation hproper]
  exact hagrees.get?_congr hagrees' hapart

theorem stable_markdownAt (hfits : (Path.ofLocation location).Fits)
    (hsome : (base.tree.get? location).isSome) :
    Stable (Scope.within base outputs exact) (markdownAt (Path.ofLocation location)) where
  kept {tree other} _ htree hother hagrees hagrees' h := by
    rw [← h]
    unfold markdownAt
    rw [list_congr htree hother hproper hfits]
    · rw [hagrees.get?_eq hapart]
      exact hsome
    · exact hagrees'.get?_congr hagrees hapart
    · exact fun name => hagrees'.get?_congr hagrees fun folder hfolder =>
        (hapart folder hfolder).inside name
  view h := markdownAt_of_sameView h _

theorem stable_enhancedAt (hbase : base.WellFormed) {plan : Plan}
    (hinputs : ∀ location, Command.Build.IsInput plan base.tree base.home location →
      ∀ folder ∈ outputs, location.Apart folder) (mode : ErrorMode) :
    Stable (Scope.within base outputs exact) (enhancedAt (Path.ofLocation location) mode) where
  kept {tree other} _ htree hother hagrees hagrees' h := by
    refine enhancedAt_congr htree hother hbase.home_proper hproper
      (hagrees.get?_congr hagrees' hapart)
      (hagrees.get?_congr hagrees' (hinputs _ .definitions)) ?_ h
    intro text hread written hnamed
    -- the files that are included are those of the definitions at the beginning
    have hread' := readText_congr hbase.tree hother definitionsPath_names
      (hagrees'.get?_eq (hinputs _ .definitions)) hread
    exact hagrees.get?_congr hagrees' (hinputs _ (.included hread' hnamed))
  view h := enhancedAt_of_sameView h _ _

theorem stable_pageAt {shell : Shell} (hsettled : shell.template.Settled)
    (htemplate : ∀ folder ∈ outputs, Location.Apart shell.template.parts folder)
    (convert : Text → Text) :
    Stable (Scope.within base outputs exact)
      (pageAt convert shell (Path.ofLocation location)) where
  kept {tree other} _ htree hother hagrees hagrees' h := by
    rw [pageAt_eq_ok_iff] at h ⊢
    obtain ⟨text, htext, hpage⟩ := h
    refine ⟨text, ?_, wrap_congr (fun template hfound => ?_) hpage⟩
    · exact stable_readText hproper hapart htree hother hagrees hagrees' htext
    · exact templateAt_congr hother htree hsettled (hagrees.get?_congr hagrees' htemplate) hfound
  view h := pageAt_of_sameView h _ _ _

end Stable

end Folio.Build

namespace Folio.Command.Build

open Folio.Build FileTree Workspace

/-- What is read is apart from what is written. -/
structure Secluded (request : Request) (plan : Plan) (tree : FileTree) (home : Location) :
    Prop where
  sourceEnhanced : Location.Apart plan.source.parts plan.enhanced.parts
  sourceSite : Location.Apart plan.source.parts plan.site.parts
  enhancedSite : Location.Apart plan.enhanced.parts plan.site.parts
  inputs : ∀ location, IsInput plan tree home location →
    location.Apart plan.enhanced.parts ∧ location.Apart plan.site.parts
  config : ∀ written ∈ request.config, ∀ path,
    Path.settle home (Path.ofLocation home) written = .ok path →
    Location.Apart path.parts plan.enhanced.parts ∧ Location.Apart path.parts plan.site.parts

end Folio.Command.Build
