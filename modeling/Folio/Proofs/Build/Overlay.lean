import Folio.Proofs.Build.Repetition

/-!
# Writing over a tree

A run that succeeds from every tree of one kind and leaves a tree of another kind `Performs`. The
trees here are a given tree with some files written over it (`Overlaid`): which of the files are
there is all that tells such trees apart, so it does not matter in what order they have been
written.
-/

namespace Folio

open FileTree

/-- Nothing stands against writing a file of this name in the folder, which is made if need be. -/
structure FileTree.Room (tree : FileTree) (folder : Location) (name : Text) : Prop where
  creatable : Creatable tree folder
  fits : (Path.ofLocation (folder ++ [name])).Fits
  free : tree.get? (folder ++ [name]) ≠ some .folder

namespace Build

open Workspace Run

variable {α β : Type} {base workspace after : Workspace} {outputs : List Location}
  {folder location : Location} {name : Text}

/-! ## Runs that succeed -/

/-- From every workspace of the first kind the run leads to one of the second kind, with the given
value. -/
def Performs (before : Workspace → Prop) (run : Run α) (value : α) (after : Workspace → Prop) :
    Prop :=
  ∀ workspace, before workspace → ∃ last, exec run workspace = (.ok value, last) ∧ after last

namespace Performs

variable {before middle last : Workspace → Prop} {value : α}

theorem pure (value : α) : Performs before (pure value) value before :=
  fun workspace h => ⟨workspace, rfl, h⟩

theorem bind {run : Run α} {next : α → Run β} {result : β} (hrun : Performs before run value middle)
    (hnext : Performs middle (next value) result last) :
    Performs before (run >>= next) result last := by
  intro workspace h
  obtain ⟨between, hexec, hmiddle⟩ := hrun workspace h
  obtain ⟨ended, hexec', hlast⟩ := hnext between hmiddle
  exact ⟨ended, exec_bind_eq_ok.mpr ⟨value, between, hexec, hexec'⟩, hlast⟩

theorem mono {run : Run α} {weaker : Workspace → Prop} (hrun : Performs before run value last)
    (hlast : ∀ workspace, last workspace → weaker workspace) :
    Performs before run value weaker := by
  intro workspace h
  obtain ⟨ended, hexec, hended⟩ := hrun workspace h
  exact ⟨ended, hexec, hlast ended hended⟩

theorem discard {run : Run α} (hrun : Performs before run value last) :
    Performs before (discard run) ⟨⟩ last := by
  intro workspace h
  obtain ⟨ended, hexec, hlast⟩ := hrun workspace h
  refine ⟨ended, ?_, hlast⟩
  rw [exec_discard, hexec]
  rfl

theorem read {reader : FileTree → Location → Except Failure α}
    (h : ∀ workspace, before workspace → reader workspace.tree workspace.home = .ok value) :
    Performs before (read reader) value before := by
  intro workspace hworkspace
  exact ⟨workspace, by rw [exec_read, h workspace hworkspace], hworkspace⟩

end Performs

/-! ## Trees with files written over them -/

/-- Each of the folders is apart from the others. -/
def AllApart (outputs : List Location) : Prop :=
  ∀ folder ∈ outputs, ∀ other ∈ outputs, folder ≠ other → folder.Apart other

theorem not_isAbove_inside (hallApart : AllApart outputs) (hfolder : folder ∈ outputs)
    (name : Text) :
    ¬ IsAbove outputs (folder ++ [name]) := by
  rintro ⟨other, hother, habove⟩
  by_cases hsame : folder = other
  · have hlength := habove.length_le
    rw [hsame, List.length_append, List.length_singleton] at hlength
    omega
  · exact (hallApart folder hfolder other hother hsame).1 ((List.prefix_append _ _).trans habove)

theorem not_isInside_above (hallApart : AllApart outputs) (hfolder : folder ∈ outputs)
    (habove : location <+: folder) : ¬ IsInside outputs location := by
  rintro ⟨other, hother, name, rfl⟩
  exact not_isAbove_inside hallApart hother name ⟨folder, hfolder, habove⟩

/-- The tree of the base, with texts written over it at some locations and the folders of the
outputs made as needed. -/
structure Overlaid (base : Workspace) (outputs : List Location) (content : Location → Text)
    (done : Location → Prop) (workspace : Workspace) : Prop where
  grown : Grown (IsInside outputs) (IsAbove outputs) base workspace
  inside : ∀ location, done location → ¬ IsAbove outputs location
  file : ∀ location, done location →
    workspace.tree.get? location = some (.file (Utf8.encode (content location)))
  same : ∀ location, ¬ IsAbove outputs location → ¬ done location →
    workspace.tree.get? location = base.tree.get? location

variable {content : Location → Text} {done : Location → Prop}

theorem Overlaid.of_base (hwf : base.WellFormed) :
    Overlaid base outputs content (fun _ => False) base :=
  ⟨.refl hwf, fun _ h => h.elim, fun _ h => h.elim, fun _ _ _ => rfl⟩

theorem Overlaid.printed (h : Overlaid base outputs content done workspace) (console : Console) :
    Overlaid base outputs content done { workspace with console } :=
  ⟨h.grown.trans (.printed h.grown.wellFormed console), h.inside, h.file, h.same⟩

theorem Overlaid.agrees (h : Overlaid base outputs content done workspace) (exact : Prop) :
    (Scope.within base outputs exact).Agrees workspace.tree :=
  fun _ hfile hfolder => h.grown.tree.get?_eq hfile hfolder

/-- If there is a file in each of the folders, the files that have been written tell everything. -/
theorem Overlaid.sameView {other : Workspace} (h : Overlaid base outputs content done workspace)
    (hother : Overlaid base outputs content done other)
    (hfull : ∀ folder ∈ outputs, ∃ name, done (folder ++ [name])) :
    SameView workspace.tree other.tree := by
  have habove {made : Workspace} (hmade : Overlaid base outputs content done made)
      {location : Location} (hlocation : IsAbove outputs location) :
      made.tree.get? location = some .folder := by
    obtain ⟨folder, hfolder, rest, rfl⟩ := hlocation
    obtain ⟨name, hname⟩ := hfull _ hfolder
    have hsteps : rest ++ [name] ≠ [] := by simp
    refine hmade.grown.wellFormed.tree.folder_above hsteps ?_
    rw [← List.append_assoc, hmade.file _ hname]
    rfl
  intro location
  by_cases hlocation : IsAbove outputs location
  · rw [habove h hlocation, habove hother hlocation]
  · by_cases hdone : done location
    · rw [h.file location hdone, hother.file location hdone]
    · rw [h.same location hlocation hdone, hother.same location hlocation hdone]

/-! ## Room -/

theorem creatable_of_grown (hallApart : AllApart outputs) (hfolder : folder ∈ outputs)
    (hgrown : Grown (IsInside outputs) (IsAbove outputs) base workspace)
    (h : Creatable base.tree folder) : Creatable workspace.tree folder := by
  refine ⟨h.fits, fun above habove content hfile => ?_⟩
  have hkept : workspace.tree.file? above = base.tree.file? above :=
    hgrown.tree.file?_eq (not_isInside_above hallApart hfolder habove)
  rw [file?_eq_some_iff.mpr hfile] at hkept
  exact h.free above habove content (file?_eq_some_iff.mp hkept.symm)

theorem room_of_grown (hallApart : AllApart outputs) (hfolder : folder ∈ outputs)
    (hgrown : Grown (IsInside outputs) (IsAbove outputs) base workspace)
    (h : Room base.tree folder name) : Room workspace.tree folder name := by
  refine ⟨creatable_of_grown hallApart hfolder hgrown h.creatable, h.fits, fun hthere => ?_⟩
  exact h.free (hgrown.tree.folder_before (not_isAbove_inside hallApart hfolder name) hthere)

/-- There was room for a file that is there now. -/
theorem room_of_file (hgrown : Grown (IsInside outputs) (IsAbove outputs) base workspace)
    (hallApart : AllApart outputs) (hfolder : folder ∈ outputs)
    (hfits : (Path.ofLocation (folder ++ [name])).Fits) {bytes : ByteArray}
    (hfile : workspace.tree.get? (folder ++ [name]) = some (.file bytes)) :
    Room base.tree folder name := by
  refine ⟨⟨hfits.above, ?_⟩, hfits, fun hthere => ?_⟩
  · rintro above ⟨rest, rfl⟩ content hbefore
    have hsteps : rest ++ [name] ≠ [] := by simp
    have hafter : workspace.tree.get? above = some .folder := by
      refine hgrown.wellFormed.tree.folder_above hsteps ?_
      rw [← List.append_assoc, hfile]
      rfl
    have hkept : workspace.tree.file? above = base.tree.file? above :=
      hgrown.tree.file?_eq (not_isInside_above hallApart hfolder (List.prefix_append above rest))
    rw [file?_eq_some_iff.mpr hbefore, file?_eq_some_iff, hafter] at hkept
    cases hkept
  · have hkept := hgrown.tree.folder_kept hthere
    rw [hfile] at hkept
    cases hkept

/-! ## Steps -/

section Steps

variable (hallApart : AllApart outputs) (hfolder : folder ∈ outputs) (hproper : folder.Proper)

theorem performs_report (printed : Report) :
    Performs (Overlaid base outputs content done) (report printed) ⟨⟩
      (Overlaid base outputs content done) :=
  fun _ h => ⟨_, rfl, h.printed _⟩

theorem performs_reportAll (printed : List Report) :
    Performs (Overlaid base outputs content done) (reportAll printed) ⟨⟩
      (Overlaid base outputs content done) :=
  fun _ h => ⟨_, rfl, h.printed _⟩

include hallApart hfolder hproper

theorem performs_makeFolders (hcreatable : Creatable base.tree folder) :
    Performs (Overlaid base outputs content done) (makeFolders (Path.ofLocation folder)) ⟨⟩
      fun workspace => Overlaid base outputs content done workspace ∧
        workspace.tree.get? folder = some .folder := by
  intro workspace h
  have hwf := h.grown.wellFormed
  have hok := makeFolders_of_creatable hwf.tree hproper
    (creatable_of_grown hallApart hfolder h.grown hcreatable) workspace.home
  have hview := get?_of_makeFolders hwf.tree hproper hok
  have hmade := (made_of_makeFolders hwf.tree hproper workspace.home).1
  rw [exec_makeFolders]
  generalize workspace.tree.makeFolders workspace.home (Path.ofLocation folder) = result
    at hok hview hmade ⊢
  obtain ⟨tree, failed | ⟨⟩⟩ := result
  · cases hok
  · have hgrown : Grown (IsInside outputs) (IsAbove outputs) workspace { workspace with tree } :=
      .of_tree hwf (hmade.grows.mono (fun _ hfile => hfile.elim)
        fun above habove => ⟨folder, hfolder, habove⟩) rfl hmade.wellFormed
    have hkept (location : Location) (habove : ¬ IsAbove outputs location) :
        tree.get? location = workspace.tree.get? location := by
      rw [hview, if_neg fun hprefix => habove ⟨folder, hfolder, hprefix⟩]
    refine ⟨{ workspace with tree }, rfl, ⟨h.grown.trans hgrown, h.inside, ?_, ?_⟩, ?_⟩
    · intro location hlocation
      rw [hkept location (h.inside location hlocation)]
      exact h.file location hlocation
    · intro location habove hlocation
      rw [hkept location habove]
      exact h.same location habove hlocation
    · rw [hview, if_pos (List.prefix_refl folder)]

theorem performs_writeText (hname : IsName name) (hroom : Room base.tree folder name) {text : Text}
    (hcontent : content (folder ++ [name]) = text) :
    Performs (fun workspace => Overlaid base outputs content done workspace ∧
        workspace.tree.get? folder = some .folder)
      (writeText (Path.ofLocation (folder ++ [name])) text) ⟨⟩
      (Overlaid base outputs content fun location => location = folder ++ [name] ∨
        done location) := by
  rintro workspace ⟨h, hthere⟩
  subst hcontent
  have hwf := h.grown.wellFormed
  have hinside := hproper.snoc hname
  have hne : folder ++ [name] ≠ [] := by simp
  obtain ⟨-, hfits, hfree⟩ := room_of_grown hallApart hfolder h.grown hroom
  have hwrite := writeBytes_eq_ok hwf.tree hinside hfits hthere hfree workspace.home
    (Utf8.encode (content (folder ++ [name])))
  have hfile : IsInside outputs (folder ++ [name]) := ⟨folder, hfolder, name, rfl⟩
  have hgrown : Grown (IsInside outputs) (IsAbove outputs) workspace _ :=
    grown_of_writeBytes hwf hinside hfile hwrite
  rw [exec_writeText, hwrite]
  refine ⟨_, rfl, h.grown.trans hgrown, ?_, ?_, ?_⟩
  · rintro location (rfl | hlocation)
    · exact not_isAbove_inside hallApart hfolder name
    · exact h.inside location hlocation
  · intro location hlocation
    rw [get?_insert _ _ hne]
    split
    · rename_i hsame
      rw [hsame]
    · rename_i hother
      exact h.file location (hlocation.resolve_left hother)
  · intro location habove hlocation
    rw [get?_insert _ _ hne, if_neg fun hsame => hlocation (.inl hsame)]
    exact h.same location habove fun hdone => hlocation (.inr hdone)

theorem performs_publish (hname : IsName name) (hroom : Room base.tree folder name) {text : Text}
    (hcontent : content (folder ++ [name]) = text) :
    Performs (Overlaid base outputs content done)
      (publish (Path.ofLocation (folder ++ [name])) text) ⟨⟩
      (Overlaid base outputs content fun location => location = folder ++ [name] ∨
        done location) := by
  unfold publish
  rw [Path.parent_ofLocation, List.dropLast_concat]
  exact (performs_makeFolders hallApart hfolder hproper hroom.creatable).bind
    (performs_writeText hallApart hfolder hproper hname hroom hcontent)

end Steps

/-! ## Loops -/

section Loops

variable {state : (Location → Prop) → Workspace → Prop} {paths : List Path}
  {target : Path → Location}

/-- The step of every file puts its target down, after whatever other files. -/
theorem Performs.foldlM {step : β → Path → Run β} {value : β}
    (h : ∀ path ∈ paths, ∀ more, (∀ location, done location → more location) →
      Performs (state more) (step value path) value
        (state fun location => location = target path ∨ more location)) :
    Performs (state done) (paths.foldlM step value) value
      (state fun location => (∃ path ∈ paths, location = target path) ∨ done location) := by
  induction paths generalizing done with
  | nil =>
    refine (Performs.pure value).mono fun workspace hworkspace => ?_
    simpa using hworkspace
  | cons path paths ih =>
    rw [List.foldlM_cons]
    refine (h path List.mem_cons_self done fun _ hdone => hdone).bind ((ih ?_).mono ?_)
    · intro later hlater more hmore
      exact h later (List.mem_cons_of_mem _ hlater) more fun location hdone =>
        hmore location (.inr hdone)
    · intro workspace hworkspace
      have hsame : (fun location => (∃ later ∈ paths, location = target later) ∨
          location = target path ∨ done location) =
          fun location => (∃ later ∈ path :: paths, location = target later) ∨ done location := by
        funext location
        simp only [List.mem_cons, exists_eq_or_imp, eq_iff_iff]
        exact or_left_comm.trans or_assoc.symm
      rw [← hsame]
      exact hworkspace

theorem forM_eq_foldlM (paths : List Path) (step : Path → Run PUnit) :
    paths.forM step = paths.foldlM (fun _ path => step path) ⟨⟩ := by
  induction paths with
  | nil => rfl
  | cons path paths ih =>
    rw [List.foldlM_cons]
    exact bind_congr fun _ => ih

theorem Performs.forM {step : Path → Run PUnit}
    (h : ∀ path ∈ paths, ∀ more, (∀ location, done location → more location) →
      Performs (state more) (step path) ⟨⟩
        (state fun location => location = target path ∨ more location)) :
    Performs (state done) (paths.forM step) ⟨⟩
      (state fun location => (∃ path ∈ paths, location = target path) ∨ done location) := by
  rw [forM_eq_foldlM]
  exact Performs.foldlM h

end Loops

end Build

end Folio
