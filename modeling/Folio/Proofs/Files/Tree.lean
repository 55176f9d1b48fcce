import Folio.Files.Tree
import Folio.Proofs.Text.Sorted
import Mathlib.Data.List.Induction

/-!
# What becomes of a file tree

The entries of a tree stand under names, and what is above an entry is a folder
(`FileTree.WellFormed`). Working on a tree writes some files and makes some folders, and leaves
everything else as it is; `Grows` says which files and which folders these may be. It is reflexive
and transitive, so what a sequence of steps does follows from what each of them does.
-/

namespace Folio

/-- A name that an entry of a folder can have. -/
structure IsName (part : Text) : Prop where
  ne_nil : part ≠ []
  noSlash : '/' ∉ part
  ne_here : part ≠ ("." : Text)
  ne_up : part ≠ (".." : Text)

instance (part : Text) : Decidable (IsName part) :=
  decidable_of_iff (part ≠ [] ∧ '/' ∉ part ∧ part ≠ ("." : Text) ∧ part ≠ (".." : Text))
    ⟨fun ⟨h₁, h₂, h₃, h₄⟩ => ⟨h₁, h₂, h₃, h₄⟩, fun ⟨h₁, h₂, h₃, h₄⟩ => ⟨h₁, h₂, h₃, h₄⟩⟩

/-- All parts of the location are names. -/
def Location.Proper (location : Location) : Prop := ∀ part ∈ location, IsName part

instance (location : Location) : Decidable location.Proper :=
  inferInstanceAs (Decidable (∀ part ∈ location, IsName part))

theorem Location.Proper.append {location other : Location} (hlocation : location.Proper)
    (hother : other.Proper) : Location.Proper (location ++ other) := by
  intro part hpart
  rcases List.mem_append.mp hpart with hpart | hpart
  · exact hlocation part hpart
  · exact hother part hpart

theorem Location.Proper.snoc {location : Location} {name : Text} (hlocation : location.Proper)
    (hname : IsName name) : Location.Proper (location ++ [name]) :=
  hlocation.append (by simpa [Location.Proper] using hname)

theorem Location.Proper.dropLast {location : Location} (h : location.Proper) :
    Location.Proper location.dropLast :=
  fun part hpart => h part (List.dropLast_subset _ hpart)

/-- Neither location is the other one or inside it. -/
def Location.Apart (location other : Location) : Prop :=
  ¬ location <+: other ∧ ¬ other <+: location

instance (location other : Location) : Decidable (location.Apart other) :=
  inferInstanceAs (Decidable (_ ∧ _))

theorem Location.Apart.snoc_ne {folder location : Location} (h : location.Apart folder)
    (name : Text) : location ≠ folder ++ [name] := by
  rintro rfl
  exact h.2 (List.prefix_append folder [name])

/-- What stands inside the first location is not inside the second one or above it. -/
theorem Location.Apart.inside {location other : Location} (h : location.Apart other)
    (name : Text) : Location.Apart (location ++ [name]) other := by
  constructor
  · intro hinside
    exact h.1 ((List.prefix_append location [name]).trans hinside)
  · intro hinside
    rcases List.prefix_concat_iff.mp hinside with heq | hbelow
    · exact h.1 (heq ▸ List.prefix_append location [name])
    · exact h.2 hbelow

namespace FileTree

variable {tree before middle after : FileTree} {location other folder : Location} {name : Text}

/-! ## The view -/

theorem lookup_filter_ne {entries : List (Location × Entry)} (hne : other ≠ location) :
    (entries.filter (·.1 ≠ location)).lookup other = entries.lookup other := by
  induction entries with
  | nil => rfl
  | cons first rest ih =>
    by_cases hfirst : first.1 = location
    · have hother : (other == first.1) = false := by simpa [hfirst] using hne
      rw [List.filter_cons_of_neg (by simpa using hfirst), ih, List.lookup_cons, hother]
    · rw [List.filter_cons_of_pos (by simpa using hfirst), List.lookup_cons, List.lookup_cons, ih]

@[simp] theorem get?_root (tree : FileTree) : tree.get? [] = some .folder := rfl

theorem get?_insert (tree : FileTree) (entry : Entry) (hlocation : location ≠ []) :
    (tree.insert location entry).get? other =
      if other = location then some entry else tree.get? other := by
  unfold get? insert
  by_cases hroot : other = []
  · have hne : ¬ other = location := fun h => hlocation (h ▸ hroot)
    rw [if_pos hroot, if_neg hne, if_pos hroot]
  · rw [if_neg hroot, if_neg hroot, List.lookup_cons]
    by_cases hsame : other = location
    · simp [hsame]
    · have hbeq : (other == location) = false := by simpa using hsame
      rw [hbeq, if_neg hsame]
      exact lookup_filter_ne hsame

theorem isFolder_iff : tree.isFolder location = true ↔ tree.get? location = some .folder := by
  unfold isFolder
  split
  · rename_i hfolder
    simp [hfolder]
  · rename_i hother
    simp only [Bool.false_eq_true, false_iff]
    exact hother

theorem nameIn?_eq_some_iff :
    nameIn? folder location = some name ↔ location = folder ++ [name] := by
  unfold nameIn?
  constructor
  · intro h
    split at h
    · rename_i hfolder
      rw [← hfolder]
      exact (List.dropLast_append_getLast? name h).symm
    · cases h
  · rintro rfl
    simp

/-- The children of a folder are the names under which entries stand in it. -/
theorem mem_children :
    name ∈ tree.children folder ↔ (tree.get? (folder ++ [name])).isSome := by
  have hne : folder ++ [name] ≠ [] := by simp
  rw [children, Text.mem_sortedSet, List.mem_filterMap, get?, if_neg hne, List.lookup_isSome_iff]
  refine exists_congr fun entry => and_congr_right fun _ => ?_
  rw [beq_iff_eq]
  exact nameIn?_eq_some_iff.trans eq_comm

/-- The bytes of the file at a location, if a file is there. -/
def file? (tree : FileTree) (location : Location) : Option ByteArray :=
  match tree.get? location with
  | some (.file content) => some content
  | _ => none

theorem file?_eq_some_iff {content : ByteArray} :
    tree.file? location = some content ↔ tree.get? location = some (.file content) := by
  unfold file?
  split
  · rename_i hfile
    simp [hfile]
  · rename_i hother
    constructor
    · intro h
      cases h
    · intro h
      exact absurd h (hother content)

/-! ## Well-formed trees -/

/-- Entries have names, and what is above an entry is a folder. -/
structure WellFormed (tree : FileTree) : Prop where
  proper : ∀ location, (tree.get? location).isSome → location.Proper
  folder : ∀ location, (tree.get? location).isSome → tree.get? location.dropLast = some .folder

/-- It is enough to look at the entries that are listed. -/
theorem wellFormed_iff : tree.WellFormed ↔
    ∀ entry ∈ tree.entries, entry.1.Proper ∧ tree.get? entry.1.dropLast = some .folder := by
  constructor
  · intro hwf entry hentry
    have hsome : (tree.get? entry.1).isSome := by
      unfold get?
      split
      · rfl
      · exact List.lookup_isSome_iff.mpr ⟨entry, hentry, beq_self_eq_true _⟩
    exact ⟨hwf.proper _ hsome, hwf.folder _ hsome⟩
  · intro h
    have hlisted : ∀ location, (tree.get? location).isSome →
        location.Proper ∧ tree.get? location.dropLast = some .folder := by
      intro location hsome
      unfold get? at hsome
      split at hsome
      · rename_i hroot
        subst hroot
        exact ⟨fun _ hpart => (nomatch hpart), rfl⟩
      · obtain ⟨entry, hentry, hkey⟩ := List.lookup_isSome_iff.mp hsome
        rw [eq_of_beq hkey]
        exact h entry hentry
    exact ⟨fun location hsome => (hlisted location hsome).1,
      fun location hsome => (hlisted location hsome).2⟩

instance (tree : FileTree) : Decidable tree.WellFormed := decidable_of_iff' _ wellFormed_iff

/-- Everything above an entry is a folder. -/
theorem WellFormed.folder_above (hwf : tree.WellFormed) {steps : List Text} (hsteps : steps ≠ [])
    (hsome : (tree.get? (location ++ steps)).isSome) : tree.get? location = some .folder := by
  induction steps using List.reverseRecOn with
  | nil => exact absurd rfl hsteps
  | append_singleton steps last ih =>
    have habove := hwf.folder _ hsome
    rw [← List.append_assoc, List.dropLast_concat] at habove
    by_cases hnil : steps = []
    · rwa [hnil, List.append_nil] at habove
    · exact ih hnil (by rw [habove]; rfl)

/-- An entry put into a folder, in place of nothing or of an entry of its kind, leaves a tree
well-formed. -/
theorem WellFormed.insert (hwf : tree.WellFormed) {entry : Entry} (hname : IsName name)
    (hfolder : tree.get? folder = some .folder)
    (hentry : entry = .folder ∨ tree.get? (folder ++ [name]) ≠ some .folder) :
    (tree.insert (folder ++ [name]) entry).WellFormed := by
  have hne : folder ++ [name] ≠ [] := by simp
  -- folders stay folders, whichever entry has been put
  have hkept : ∀ other, tree.get? other = some .folder →
      (tree.insert (folder ++ [name]) entry).get? other = some .folder := by
    intro other hother
    rw [get?_insert tree entry hne]
    split
    · rename_i hsame
      rcases hentry with rfl | hentry
      · rfl
      · exact absurd (hsame ▸ hother) hentry
    · exact hother
  constructor
  · intro other hsome
    rw [get?_insert tree entry hne] at hsome
    split at hsome
    · rename_i hsame
      rw [hsame]
      exact (hwf.proper folder (by rw [hfolder]; rfl)).snoc hname
    · exact hwf.proper other hsome
  · intro other hsome
    refine hkept _ ?_
    rw [get?_insert tree entry hne] at hsome
    split at hsome
    · rename_i hsame
      rw [hsame, List.dropLast_concat]
      exact hfolder
    · exact hwf.folder other hsome

/-! ## Growing -/

/-- What may become of the entry at a location: it stays, a file is written in place of nothing or
of a file, or a folder is made where nothing was. -/
inductive Change (mayWrite mayMake : Prop) : Option Entry → Option Entry → Prop
  | kept (entry : Option Entry) : Change mayWrite mayMake entry entry
  | written {entry : Option Entry} (content : ByteArray) :
      mayWrite → entry ≠ some .folder → Change mayWrite mayMake entry (some (.file content))
  | made : mayMake → Change mayWrite mayMake none (some .folder)

theorem Change.trans {mayWrite mayMake : Prop} {first second third : Option Entry}
    (hfirst : Change mayWrite mayMake first second)
    (hsecond : Change mayWrite mayMake second third) : Change mayWrite mayMake first third := by
  cases hfirst with
  | kept => exact hsecond
  | written content hfile hentry =>
    cases hsecond with
    | kept => exact .written content hfile hentry
    | written content hfile _ => exact .written content hfile hentry
  | made hfolder =>
    cases hsecond with
    | kept => exact .made hfolder
    | written _ _ hentry => exact absurd rfl hentry

theorem Change.mono {mayWrite mayMake mayWrite' mayMake' : Prop} {first second : Option Entry}
    (h : Change mayWrite mayMake first second) (hfile : mayWrite → mayWrite')
    (hfolder : mayMake → mayMake') : Change mayWrite' mayMake' first second := by
  cases h with
  | kept => exact .kept _
  | written content hwrite hentry => exact .written content (hfile hwrite) hentry
  | made hmake => exact .made (hfolder hmake)

/-- Only the given files have been written, and only the given folders have been made. -/
def Grows (files folders : Location → Prop) (before after : FileTree) : Prop :=
  ∀ location,
    Change (files location) (folders location) (before.get? location) (after.get? location)

section Grows

variable {files moreFiles folders moreFolders : Location → Prop}

theorem Grows.refl (tree : FileTree) : Grows files folders tree tree := fun _ => .kept _

theorem Grows.trans (hfirst : Grows files folders before middle)
    (hsecond : Grows files folders middle after) : Grows files folders before after :=
  fun location => (hfirst location).trans (hsecond location)

theorem Grows.mono (h : Grows files folders before after)
    (hfiles : ∀ location, files location → moreFiles location)
    (hfolders : ∀ location, folders location → moreFolders location) :
    Grows moreFiles moreFolders before after :=
  fun location => (h location).mono (hfiles location) (hfolders location)

theorem Grows.insert_file (hlocation : location ≠ []) (content : ByteArray)
    (hfile : files location) (hentry : tree.get? location ≠ some .folder) :
    Grows files folders tree (tree.insert location (.file content)) := by
  intro other
  rw [get?_insert tree _ hlocation]
  split
  · rename_i hsame
    subst hsame
    exact .written content hfile hentry
  · exact .kept _

theorem Grows.insert_folder (hlocation : location ≠ []) (hfolder : folders location)
    (hnone : tree.get? location = none) :
    Grows files folders tree (tree.insert location .folder) := by
  intro other
  rw [get?_insert tree _ hlocation]
  split
  · rename_i hsame
    subst hsame
    rw [hnone]
    exact .made hfolder
  · exact .kept _

/-- What may be neither written nor made is as before. -/
theorem Grows.get?_eq (h : Grows files folders before after) (hfile : ¬ files location)
    (hfolder : ¬ folders location) : after.get? location = before.get? location := by
  have hchange := h location
  generalize before.get? location = first, after.get? location = second at hchange
  cases hchange with
  | kept => rfl
  | written _ hwrite _ => exact absurd hwrite hfile
  | made hmake => exact absurd hmake hfolder

/-- A file that may not be written has the same bytes as before. -/
theorem Grows.file?_eq (h : Grows files folders before after) (hfile : ¬ files location) :
    after.file? location = before.file? location := by
  unfold file?
  have hchange := h location
  generalize before.get? location = first, after.get? location = second at hchange
  cases hchange with
  | kept => rfl
  | written _ hwrite _ => exact absurd hwrite hfile
  | made _ => rfl

theorem Grows.folder_kept (h : Grows files folders before after)
    (hfolder : before.get? location = some .folder) : after.get? location = some .folder := by
  have hchange := h location
  rw [hfolder] at hchange
  generalize after.get? location = second at hchange
  cases hchange with
  | kept => rfl
  | written _ _ hentry => exact absurd rfl hentry

/-- A folder that may not be made has been there before. -/
theorem Grows.folder_before (h : Grows files folders before after) (hmake : ¬ folders location)
    (hfolder : after.get? location = some .folder) : before.get? location = some .folder := by
  have hchange := h location
  rw [hfolder] at hchange
  generalize before.get? location = first at hchange
  cases hchange with
  | kept => rfl
  | made hmade => exact absurd hmade hmake

end Grows

end FileTree

end Folio
