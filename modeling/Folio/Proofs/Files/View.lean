import Folio.Proofs.Files.Access
import Mathlib.Data.List.Sort

/-!
# Trees that hold the same entries

Two lists of entries may be the same tree: what counts is `get?`. Everything that is read from a
tree, and every obstacle that is met in it, is the same in trees with the same view.

* `SameView.locate`: a way leads to the same place, or meets the same obstacle.
* `SameView.readText`, `SameView.list`: what is read and listed is the same, failures included.
* `list_congr`: for a listing it is enough that the folder and what is directly in it are the same.
-/

namespace Folio.FileTree

variable {tree other after : FileTree} {home start location folder : Location} {steps : List Text}
  {route : Route} {path : Path} {ending : Text}

/-- The trees hold the same entries. -/
def SameView (tree other : FileTree) : Prop := ∀ location, other.get? location = tree.get? location

namespace SameView

theorem refl (tree : FileTree) : SameView tree tree := fun _ => rfl

theorem symm (h : SameView tree other) : SameView other tree := fun location => (h location).symm

theorem trans (h : SameView tree other) (h' : SameView other after) : SameView tree after :=
  fun location => (h' location).trans (h location)

theorem grows (h : SameView tree other) {files folders : Location → Prop} :
    Grows files folders tree other := by
  intro location
  rw [h location]
  exact .kept _

theorem follow (h : SameView tree other) (start : Location) (steps : List Text) :
    other.follow start steps = tree.follow start steps := by
  induction steps generalizing start with
  | nil => rfl
  | cons step steps ih =>
    rw [FileTree.follow, FileTree.follow, h start]
    simp only [ih]

theorem locate (h : SameView tree other) (home : Location) (route : Route) :
    other.locate home route = tree.locate home route := by
  unfold FileTree.locate
  simp only [h.follow]

theorem isFolder (h : SameView tree other) (location : Location) :
    other.isFolder location = tree.isFolder location := by
  unfold FileTree.isFolder
  rw [h location]

theorem lookAt (h : SameView tree other) (home : Location) (route : Route) :
    other.lookAt home route = tree.lookAt home route := by
  unfold FileTree.lookAt
  rw [h.locate]
  cases tree.locate home route with
  | ok location => exact congrArg Except.ok (h location)
  | error obstacle => cases obstacle <;> rfl

theorem isFolderAt (h : SameView tree other) (home : Location) (route : Route) :
    other.isFolderAt home route = tree.isFolderAt home route := by
  unfold FileTree.isFolderAt
  simp only [h.locate, h.isFolder]

theorem readText (h : SameView tree other) (home : Location) (route : Route) :
    other.readText home route = tree.readText home route := by
  have hbytes : other.readBytes home route = tree.readBytes home route := by
    unfold FileTree.readBytes
    rw [h.locate]
    cases tree.locate home route with
    | ok location =>
      dsimp only
      rw [h location]
    | error obstacle => rfl
  unfold FileTree.readText
  rw [hbytes]

end SameView

/-! ## Listing -/

theorem namesWith_congr
    (h : ∀ name, (after.get? (folder ++ [name])).isSome = (tree.get? (folder ++ [name])).isSome)
    (ending : Text) : after.namesWith folder ending = tree.namesWith folder ending := by
  refine (pairwise_namesWith _ _ _).eq_of_mem_iff (pairwise_namesWith _ _ _) fun name => ?_
  rw [mem_namesWith, mem_namesWith, h]

theorem SameView.list (h : SameView tree other) (home : Location) (path : Path) (ending : Text) :
    other.list home path ending = tree.list home path ending := by
  have hnames (location : Location) :
      ((other.children location).filter fun name => ending.isSuffixOf name) =
        (tree.children location).filter fun name => ending.isSuffixOf name :=
    namesWith_congr (fun name => by rw [h]) ending
  unfold FileTree.list
  simp only [h.locate, h.isFolder, hnames]

/-- Only a folder has entries to list. -/
theorem folder_of_list (hproper : folder.Proper) {ending : Text} {paths : List Path}
    (hne : paths ≠ []) (h : tree.list home (Path.ofLocation folder) ending = .ok paths) :
    (Path.ofLocation folder).Fits ∧ tree.get? folder = some .folder := by
  unfold FileTree.list at h
  split at h
  · cases h
  · exact absurd (Except.ok.inj h).symm hne
  · rename_i place hplace
    obtain ⟨hfits, rfl, -⟩ := of_locate_ofLocation hproper hplace
    split at h
    · rename_i hfolder
      exact ⟨hfits, isFolder_iff.mp hfolder⟩
    · exact absurd (Except.ok.inj h).symm hne

/-- A listing depends on the folder and on what is directly in it, if something is there. -/
theorem list_congr (hwf : tree.WellFormed) (hafter : after.WellFormed) (hproper : folder.Proper)
    (hfits : (Path.ofLocation folder).Fits) (hsome : (tree.get? folder).isSome)
    (hfolder : after.get? folder = tree.get? folder)
    (hentries : ∀ name, after.get? (folder ++ [name]) = tree.get? (folder ++ [name]))
    (ending : Text) :
    after.list home (Path.ofLocation folder) ending =
      tree.list home (Path.ofLocation folder) ending := by
  have hnames : ∀ part ∈ (Path.ofLocation folder).parts, IsName part := hproper
  have hresolve : (Path.ofLocation folder).resolve home = folder := Path.resolve_ofLocation hproper
  have hbefore : tree.locate home (Path.ofLocation folder).route = .ok folder := by
    rw [locate_eq_ok hwf hnames hfits (by rwa [hresolve]), hresolve]
  have hnow : after.locate home (Path.ofLocation folder).route = .ok folder := by
    rw [locate_eq_ok hafter hnames hfits (by rwa [hresolve, hfolder]), hresolve]
  have hlisted : ((after.children folder).filter fun name => ending.isSuffixOf name) =
      (tree.children folder).filter fun name => ending.isSuffixOf name :=
    namesWith_congr (fun name => by rw [hentries]) ending
  unfold list isFolder
  rw [hbefore, hnow]
  dsimp only
  rw [hfolder, hlisted]

end Folio.FileTree
