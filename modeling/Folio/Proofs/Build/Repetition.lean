import Folio.Proofs.Build.Steps
import Folio.Proofs.Files.Folders

/-!
# Doing a run again

A run is carried out, and then carried out again in the tree that it left. The second time it finds
what it had found the first time, as long as it does not read what it writes, and so it writes what
is there already.

To show this, the two runs are compared step by step (`Along`). The second run begins with the
entries with which the first one ends. It may lose them for a while, where the first run writes a
file more than once; it then has the file that the first run has at that moment. If the first run
fails, it ends there, and both trees hold the same entries.

`Repeats` says that a run, from whatever point it is reached, goes along with itself. It is closed
under sequence (`Repeats.bind`), and its single steps are reading, printing, making folders and
writing files.
-/

namespace Folio.Build

open FileTree Workspace Run

variable {α β : Type} {last : FileTree} {first second after : Workspace}

theorem of_writeBytes_inside {tree made : FileTree} {home folder : Location} {name : Text}
    {content : ByteArray} (hproper : Location.Proper (folder ++ [name]))
    (h : tree.writeBytes home (Path.ofLocation (folder ++ [name])).route content = .ok made) :
    (Path.ofLocation (folder ++ [name])).Fits ∧ tree.get? (folder ++ [name]) ≠ some .folder ∧
      tree.get? folder = some .folder ∧ made = tree.insert (folder ++ [name]) (.file content) := by
  have hnames : ∀ part ∈ (Path.ofLocation (folder ++ [name])).parts, IsName part := hproper
  have hne : folder ++ [name] ≠ [] := by simp
  have hwritten := of_writeBytes hnames hne h
  rw [Path.resolve_ofLocation hproper, List.dropLast_concat] at hwritten
  exact hwritten

theorem grown_of_writeBytes {folder : Location} {name : Text} {content : ByteArray}
    {files folders : Location → Prop} {made : FileTree} (hwf : first.WellFormed)
    (hproper : Location.Proper (folder ++ [name])) (hfile : files (folder ++ [name]))
    (h : first.tree.writeBytes first.home (Path.ofLocation (folder ++ [name])).route content =
      .ok made) :
    Grown files folders first { first with tree := made } := by
  obtain ⟨-, hentry, habove, rfl⟩ := of_writeBytes_inside hproper h
  have hne : folder ++ [name] ≠ [] := by simp
  refine .of_tree hwf (.insert_file hne content hfile hentry) rfl ?_
  exact hwf.tree.insert (hproper name (by simp)) habove (.inr hentry)

/-! ## Two runs side by side -/

/-- The second run has the entries with which the first run ends, or the same file as the first
run. -/
structure Along (last : FileTree) (first second : Workspace) : Prop where
  home : second.home = first.home
  console : second.console = first.console
  wellFormed : second.WellFormed
  entries : ∀ location, second.tree.get? location = last.get? location ∨
    ∃ content, first.tree.get? location = some (.file content) ∧
      second.tree.get? location = some (.file content)

theorem Along.get?_eq (h : Along last first second) {location : Location}
    (hlast : last.get? location = first.tree.get? location) :
    second.tree.get? location = first.tree.get? location := by
  rcases h.entries location with hsame | ⟨content, hfirst, hsecond⟩
  · rw [hsame, hlast]
  · rw [hfirst, hsecond]

/-- Where the first run ends, the second one has the same tree. -/
theorem Along.sameView (h : Along last first second) (hlast : SameView first.tree last) :
    SameView first.tree second.tree :=
  fun location => h.get?_eq (hlast location)

/-- A folder that the first run has is there in the second. -/
theorem Along.folder_eq (h : Along last first second) {files folders : Location → Prop}
    (hlast : Grows files folders first.tree last) {location : Location}
    (hfolder : first.tree.get? location = some .folder) :
    second.tree.get? location = some .folder :=
  (h.get?_eq ((hlast.folder_kept hfolder).trans hfolder.symm)).trans hfolder

/-- The same files are there after folders have been made. -/
theorem Along.of_grown (h : Along last first second) {folders : Location → Prop}
    (hgrown : Grown (fun _ => False) folders first after)
    (hconsole : after.console = first.console) : Along last after second := by
  refine ⟨h.home.trans hgrown.home.symm, h.console.trans hconsole.symm, h.wellFormed, ?_⟩
  intro location
  rcases h.entries location with hsame | ⟨content, hfirst, hsecond⟩
  · exact .inl hsame
  · refine .inr ⟨content, ?_, hsecond⟩
    have hkept : after.tree.file? location = first.tree.file? location :=
      hgrown.tree.file?_eq id
    rw [file?_eq_some_iff.mpr hfirst] at hkept
    exact file?_eq_some_iff.mp hkept

/-! ## Runs that repeat themselves -/

/-- Where a run begins and what it may change. -/
structure Scope where
  base : Workspace
  files : Location → Prop
  folders : Location → Prop
  /-- Are the causes of failures compared as well? -/
  exact : Prop

/-- What the scope does not allow to change is as it was at the beginning. -/
def Scope.Agrees (scope : Scope) (tree : FileTree) : Prop :=
  ∀ location, ¬ scope.files location → ¬ scope.folders location →
    tree.get? location = scope.base.tree.get? location

/-- The first run is not over yet, or it has failed and is over. -/
def Scope.Ends (scope : Scope) (tree last : FileTree) : Except Failure α → Prop
  | .ok _ => Grows scope.files scope.folders tree last
  | .error _ => SameView tree last

/-- The results are the same. The causes of failures need to be the same only if they are
compared. -/
def Alike (exact : Prop) : Except Failure α → Except Failure α → Prop
  | .ok value, .ok other => value = other
  | .error failure, .error other => exact → failure = other
  | _, _ => False

theorem Alike.map {exact : Prop} {result other : Except Failure α} (h : Alike exact result other)
    (f : α → β) : Alike exact (result.map f) (other.map f) := by
  rcases result with failure | value
  · rcases other with failure' | value'
    · exact h
    · exact h
  · rcases other with failure' | value'
    · exact h
    · exact congrArg f h

/-- From this point on, the run goes along with itself to its end. -/
def Recurs (exact : Prop) (run : Run α) (first : Workspace) : Prop :=
  ∀ ⦃result after second⦄, exec run first = (result, after) → Along after.tree first second →
    ∃ result' after', exec run second = (result', after') ∧ Alike exact result result' ∧
      Along after.tree after after'

/-- From whatever point the run is reached, it goes along with itself. -/
structure Repeats (scope : Scope) (run : Run α) : Prop where
  grown : ∀ {first result after}, Grown scope.files scope.folders scope.base first →
    exec run first = (result, after) → Grown scope.files scope.folders first after
  again : ∀ {last first second result after}, Grown scope.files scope.folders scope.base first →
    exec run first = (result, after) → scope.Ends after.tree last result →
    Along last first second →
    ∃ result' after', exec run second = (result', after') ∧ Alike scope.exact result result' ∧
      Along last after after'

variable {scope : Scope} {exact : Prop}

theorem Scope.agrees_of_grown (h : Grown scope.files scope.folders scope.base first) :
    scope.Agrees first.tree :=
  fun _ hfile hfolder => h.tree.get?_eq hfile hfolder

theorem Scope.Ends.grows {tree : FileTree} {result : Except Failure α}
    (h : scope.Ends tree last result) : Grows scope.files scope.folders tree last := by
  cases result with
  | ok value => exact h
  | error failure => exact SameView.grows h

/-- As long as the first run goes on, the second one agrees with the beginning too. -/
theorem Along.agrees (h : Along last first second)
    (hfirst : Grown scope.files scope.folders scope.base first)
    (hlast : Grows scope.files scope.folders first.tree last) : scope.Agrees second.tree := by
  intro location hfile hfolder
  rw [h.get?_eq (hlast.get?_eq hfile hfolder)]
  exact hfirst.tree.get?_eq hfile hfolder

/-- What the reader finds depends on nothing that the scope allows to change; what is wrong depends
on the tree. -/
structure Stable (scope : Scope)
    (reader : FileTree → Location → Except Failure α) : Prop where
  kept : ∀ {tree other value}, tree.WellFormed → other.WellFormed → scope.Agrees tree →
    scope.Agrees other → reader tree scope.base.home = .ok value →
    reader other scope.base.home = .ok value
  view : ∀ {tree other}, SameView tree other →
    reader other scope.base.home = reader tree scope.base.home

namespace Repeats

theorem pure (value : α) : Repeats scope (pure value) where
  grown hfirst h := by
    obtain ⟨-, rfl⟩ := Prod.mk.inj h
    exact .refl hfirst.wellFormed
  again hfirst h hends halong := by
    obtain ⟨rfl, rfl⟩ := Prod.mk.inj h
    exact ⟨_, _, rfl, rfl, halong⟩

/-- Printing depends on the console only. -/
theorem print (change : Console → Console) :
    Repeats scope (modify fun workspace =>
      { workspace with console := change workspace.console } : Run PUnit) where
  grown hfirst h := by
    obtain ⟨-, rfl⟩ := Prod.mk.inj h
    exact .printed hfirst.wellFormed _
  again {last first second result after} hfirst h hends halong := by
    obtain ⟨rfl, rfl⟩ := Prod.mk.inj h
    refine ⟨_, _, rfl, rfl, halong.home, ?_, halong.wellFormed.printed _, halong.entries⟩
    exact congrArg change halong.console

theorem report (printed : Report) : Repeats scope (Run.report printed) :=
  print fun console => console.report printed

theorem reportAll (printed : List Report) : Repeats scope (Run.reportAll printed) :=
  print fun console => console.reportAll printed

/-- One run after another. The second may depend on every value that the first can have. -/
theorem bind {run : Run α} {next : α → Run β} (hrun : Repeats scope run)
    (hnext : ∀ first value after, Grown scope.files scope.folders scope.base first →
      exec run first = (.ok value, after) → Repeats scope (next value)) :
    Repeats scope (run >>= next) where
  grown {first result after} hfirst h := by
    rw [exec_bind] at h
    rcases hexec : exec run first with ⟨failure | value, middle⟩
    · rw [hexec] at h
      obtain ⟨-, rfl⟩ := Prod.mk.inj h
      exact hrun.grown hfirst hexec
    · rw [hexec] at h
      have hmiddle := hrun.grown hfirst hexec
      exact hmiddle.trans ((hnext _ _ _ hfirst hexec).grown (hfirst.trans hmiddle) h)
  again {last first second result after} hfirst h hends halong := by
    rw [exec_bind] at h
    rcases hexec : exec run first with ⟨failure | value, middle⟩
    · rw [hexec] at h
      obtain ⟨rfl, rfl⟩ := Prod.mk.inj h
      obtain ⟨result', after', hsecond, halike, halong'⟩ := hrun.again hfirst hexec hends halong
      rw [exec_bind, hsecond]
      cases result' with
      | ok value => exact absurd halike id
      | error failure' => exact ⟨_, _, rfl, halike, halong'⟩
    · rw [hexec] at h
      have hmiddle := hrun.grown hfirst hexec
      have hstep := hnext _ _ _ hfirst hexec
      have hrest := (hstep.grown (hfirst.trans hmiddle) h).tree.trans hends.grows
      obtain ⟨result', middle', hsecond, halike, halong'⟩ := hrun.again hfirst hexec hrest halong
      rw [exec_bind, hsecond]
      cases result' with
      | error failure => exact absurd halike id
      | ok value' =>
        obtain rfl : value = value' := halike
        exact hstep.again (hfirst.trans hmiddle) h hends halong'

theorem map {run : Run α} (hrun : Repeats scope run) (f : α → β) : Repeats scope (f <$> run) := by
  rw [← bind_pure_comp]
  exact hrun.bind fun _ value _ _ _ => pure (f value)

theorem discard {run : Run α} (hrun : Repeats scope run) : Repeats scope (discard run) :=
  hrun.map _

theorem forM {members : List α} {step : α → Run PUnit}
    (h : ∀ member ∈ members, Repeats scope (step member)) : Repeats scope (members.forM step) := by
  induction members with
  | nil => exact pure PUnit.unit
  | cons member members ih =>
    obtain ⟨hmember, hmembers⟩ := List.forall_mem_cons.mp h
    exact hmember.bind fun _ _ _ _ _ => ih hmembers

theorem foldlM {members : List α} {step : β → α → Run β}
    (h : ∀ member ∈ members, ∀ value, Repeats scope (step value member)) (value : β) :
    Repeats scope (members.foldlM step value) := by
  induction members generalizing value with
  | nil => exact pure value
  | cons member members ih =>
    obtain ⟨hmember, hmembers⟩ := List.forall_mem_cons.mp h
    rw [List.foldlM_cons]
    exact (hmember value).bind fun _ next _ _ _ => ih hmembers next

/-! ## Reading -/

theorem read {reader : FileTree → Location → Except Failure α} (hstable : Stable scope reader) :
    Repeats scope (Run.read reader) where
  grown hfirst h := by
    rw [exec_read] at h
    obtain ⟨-, rfl⟩ := Prod.mk.inj h
    exact .refl hfirst.wellFormed
  again {last first second result after} hfirst h hends halong := by
    rw [exec_read] at h
    obtain ⟨rfl, rfl⟩ := Prod.mk.inj h
    refine ⟨_, _, exec_read _, ?_, halong⟩
    rw [halong.home, hfirst.home]
    rw [hfirst.home] at hends
    cases hvalue : reader first.tree scope.base.home with
    | ok value =>
      rw [hvalue] at hends
      rw [hstable.kept hfirst.wellFormed.tree halong.wellFormed.tree (Scope.agrees_of_grown hfirst)
        (halong.agrees hfirst hends.grows) hvalue]
      exact rfl
    | error failure =>
      rw [hvalue] at hends
      rw [hstable.view (halong.sameView hends), hvalue]
      exact fun _ => rfl

/-! ## Writing -/

variable {folder : Location} {name : Text}

theorem makeFolders (hproper : folder.Proper)
    (hfolders : ∀ above, above <+: folder → scope.folders above)
    (hexact : scope.exact → ∀ part ∈ folder.dropLast, Utf8.size part ≤ nameLimit) :
    Repeats scope (Run.makeFolders (Path.ofLocation folder)) where
  grown {first result after} hfirst h := by
    obtain ⟨hmade, -⟩ := made_of_makeFolders hfirst.wellFormed.tree hproper first.home
    rw [exec_makeFolders] at h
    obtain ⟨-, rfl⟩ := Prod.mk.inj h
    exact .of_tree hfirst.wellFormed
      (hmade.grows.mono (fun _ hfile => hfile.elim) hfolders) rfl hmade.wellFormed
  again {last first second result after} hfirst h hends halong := by
    obtain ⟨hmade, hdone⟩ := made_of_makeFolders hfirst.wellFormed.tree hproper first.home
    rw [exec_makeFolders] at h
    rw [exec_makeFolders]
    rcases hmakes : first.tree.makeFolders first.home (Path.ofLocation folder) with
      ⟨made, error | ⟨⟩⟩
    · rw [hmakes] at h hmade
      obtain ⟨rfl, rfl⟩ := Prod.mk.inj h
      have halong' : Along last { first with tree := made } second :=
        halong.of_grown (.of_tree hfirst.wellFormed hmade.grows rfl hmade.wellFormed) rfl
      obtain ⟨again, hagain, hsame⟩ := makeFolders_stuck hfirst.wellFormed.tree hproper hmakes
        (halong'.sameView hends)
      rw [← halong.home] at hagain
      rw [hagain]
      refine ⟨_, _, rfl, fun hexactly => ?_, halong'⟩
      rw [hsame (hexact hexactly)]
    · rw [hmakes] at h hmade hdone
      obtain ⟨rfl, rfl⟩ := Prod.mk.inj h
      obtain ⟨hfolder, hfits⟩ := hdone rfl
      have halong' : Along last { first with tree := made } second :=
        halong.of_grown (.of_tree hfirst.wellFormed hmade.grows rfl hmade.wellFormed) rfl
      have hthere := halong'.folder_eq hends.grows hfolder
      rw [makeFolders_of_folder halong.wellFormed.tree hproper hfits hthere second.home]
      exact ⟨_, _, rfl, rfl, halong'⟩

theorem writeText (hproper : Location.Proper (folder ++ [name]))
    (hfile : scope.files (folder ++ [name])) (text : Text) :
    Repeats scope (Run.writeText (Path.ofLocation (folder ++ [name])) text) where
  grown {first result after} hfirst h := by
    rw [exec_writeText] at h
    split at h
    · rename_i tree hwrite
      obtain ⟨-, rfl⟩ := Prod.mk.inj h
      exact grown_of_writeBytes hfirst.wellFormed hproper hfile hwrite
    · obtain ⟨-, rfl⟩ := Prod.mk.inj h
      exact .refl hfirst.wellFormed
  again {last first second result after} hfirst h hends halong := by
    rw [exec_writeText] at h
    rw [exec_writeText]
    split at h
    · rename_i tree hwrite
      obtain ⟨rfl, rfl⟩ := Prod.mk.inj h
      have hgrown : Grown scope.files scope.folders first { first with tree } :=
        grown_of_writeBytes hfirst.wellFormed hproper hfile hwrite
      obtain ⟨hfits, hentry, habove, rfl⟩ := of_writeBytes_inside hproper hwrite
      have hne : folder ++ [name] ≠ [] := by simp
      have hthere := halong.folder_eq (hgrown.tree.trans hends.grows) habove
      have hfree : second.tree.get? (folder ++ [name]) ≠ some .folder := by
        intro hfolder
        rcases halong.entries (folder ++ [name]) with hsame | ⟨content, -, hsecond⟩
        · have hchange := hends.grows (folder ++ [name])
          rw [get?_insert _ _ hne, if_pos rfl, ← hsame, hfolder] at hchange
          cases hchange
        · rw [hfolder] at hsecond
          cases hsecond
      have hwrite' := writeBytes_eq_ok halong.wellFormed.tree hproper hfits hthere hfree
        second.home (Utf8.encode text)
      have hgrown' : Grown (fun _ => True) (fun _ => True) second
          { second with tree :=
            second.tree.insert (folder ++ [name]) (.file (Utf8.encode text)) } :=
        grown_of_writeBytes halong.wellFormed hproper trivial hwrite'
      rw [hwrite']
      refine ⟨_, _, rfl, rfl, halong.home, halong.console, hgrown'.wellFormed, fun location => ?_⟩
      -- where the file has been written, both runs have it
      rw [get?_insert _ _ hne, get?_insert _ _ hne]
      split
      · exact .inr ⟨_, rfl, rfl⟩
      · exact halong.entries location
    · rename_i error hwrite
      obtain ⟨rfl, rfl⟩ := Prod.mk.inj h
      rw [← halong.home] at hwrite
      rw [(halong.sameView hends).writeBytes hwrite]
      exact ⟨_, _, rfl, fun _ => rfl, halong⟩

theorem publish (hproper : Location.Proper (folder ++ [name]))
    (hfile : scope.files (folder ++ [name]))
    (hfolders : ∀ above, above <+: folder → scope.folders above)
    (hexact : scope.exact → ∀ part ∈ folder.dropLast, Utf8.size part ≤ nameLimit) (text : Text) :
    Repeats scope (Build.publish (Path.ofLocation (folder ++ [name])) text) := by
  have hfolder : folder.Proper := fun part hpart => hproper part (List.mem_append_left _ hpart)
  unfold Build.publish
  rw [Path.parent_ofLocation, List.dropLast_concat]
  exact (makeFolders hfolder hfolders hexact).bind fun _ _ _ _ _ => writeText hproper hfile text

/-! ## To the end of a run -/

theorem recurs {run : Run α} (h : Repeats scope run)
    (hfirst : Grown scope.files scope.folders scope.base first) : Recurs scope.exact run first := by
  intro result after second hexec halong
  refine h.again hfirst hexec ?_ halong
  cases result with
  | ok value => exact .refl _
  | error failure => exact .refl _

/-- A run that repeats itself, and then one that goes on to the end. -/
theorem bind_recurs {run : Run α} {next : α → Run β} (hrun : Repeats scope run)
    (hfirst : Grown scope.files scope.folders scope.base first)
    (hgrown : ∀ value middle, exec run first = (.ok value, middle) →
      ∀ result after, exec (next value) middle = (result, after) →
        Grown scope.files scope.folders middle after)
    (hnext : ∀ value middle, exec run first = (.ok value, middle) →
      Recurs scope.exact (next value) middle) : Recurs scope.exact (run >>= next) first := by
  intro result after second h halong
  rw [exec_bind] at h
  rcases hexec : exec run first with ⟨failure | value, middle⟩
  · rw [hexec] at h
    obtain ⟨rfl, rfl⟩ := Prod.mk.inj h
    obtain ⟨result', after', hsecond, halike, halong'⟩ :=
      hrun.again hfirst hexec (.refl _) halong
    rw [exec_bind, hsecond]
    cases result' with
    | ok value => exact absurd halike id
    | error failure' => exact ⟨_, _, rfl, halike, halong'⟩
  · rw [hexec] at h
    obtain ⟨result', middle', hsecond, halike, halong'⟩ :=
      hrun.again hfirst hexec (hgrown value middle hexec result after h).tree halong
    rw [exec_bind, hsecond]
    cases result' with
    | error failure => exact absurd halike id
    | ok value' =>
      obtain rfl : value = value' := halike
      exact hnext value middle hexec h halong'

end Repeats

theorem Recurs.map {run : Run α} (h : Recurs exact run first) (f : α → β) :
    Recurs exact (f <$> run) first := by
  intro result after second hexec halong
  rw [exec_map] at hexec
  rcases hrun : exec run first with ⟨found, ended⟩
  rw [hrun] at hexec
  obtain ⟨rfl, rfl⟩ := Prod.mk.inj hexec
  obtain ⟨found', ended', hsecond, halike, halong'⟩ := h hrun halong
  rw [exec_map, hsecond]
  exact ⟨_, _, rfl, halike.map f, halong'⟩

/-! ## Files in given folders -/

section Within

variable {base : Workspace} {outputs : List Location} {location : Location} {tree other : FileTree}

/-- The location is directly in one of the folders. -/
def IsInside (outputs : List Location) (location : Location) : Prop :=
  ∃ folder ∈ outputs, ∃ name, location = folder ++ [name]

/-- The location is one of the folders, or above one. -/
def IsAbove (outputs : List Location) (location : Location) : Prop :=
  ∃ folder ∈ outputs, location <+: folder

theorem grown_of_isTarget {folder : Location} {target : Path → Text} {sources : List Path}
    (hfolder : folder ∈ outputs)
    (h : Grown (IsTarget folder target sources) (· <+: folder) first after) :
    Grown (IsInside outputs) (IsAbove outputs) first after := by
  refine h.mono ?_ ?_
  · rintro location ⟨source, -, hlocation⟩
    exact ⟨folder, hfolder, target source, hlocation⟩
  · exact fun location habove => ⟨folder, hfolder, habove⟩

/-- Files directly in the given folders may be written, and the folders may be made. -/
def Scope.within (base : Workspace) (outputs : List Location) (exact : Prop) : Scope where
  base := base
  files := IsInside outputs
  folders := IsAbove outputs
  exact := exact

theorem not_isInside (hapart : ∀ folder ∈ outputs, location.Apart folder) :
    ¬ IsInside outputs location := by
  rintro ⟨folder, hfolder, name, hsame⟩
  exact (hapart folder hfolder).snoc_ne name hsame

theorem not_isAbove (hapart : ∀ folder ∈ outputs, location.Apart folder) :
    ¬ IsAbove outputs location := by
  rintro ⟨folder, hfolder, habove⟩
  exact (hapart folder hfolder).1 habove

theorem Scope.Agrees.get?_eq (h : (Scope.within base outputs exact).Agrees tree)
    (hapart : ∀ folder ∈ outputs, location.Apart folder) :
    tree.get? location = base.tree.get? location :=
  h location (not_isInside hapart) (not_isAbove hapart)

theorem Scope.Agrees.get?_congr (h : (Scope.within base outputs exact).Agrees tree)
    (hother : (Scope.within base outputs exact).Agrees other)
    (hapart : ∀ folder ∈ outputs, location.Apart folder) :
    tree.get? location = other.get? location :=
  (h.get?_eq hapart).trans (hother.get?_eq hapart).symm

end Within

end Folio.Build
