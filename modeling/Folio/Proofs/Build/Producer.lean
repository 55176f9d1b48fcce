import Folio.Proofs.Files.Access
import Folio.Proofs.Outcome
import Folio.Proofs.Workspace

/-!
# Steps that write one file

Both stages of a build go through files and write one file for each. Such a step computes a text
from the tree and then publishes it: it makes the folder of the target and writes the text into the
target. Whatever goes wrong goes wrong before the target is written (`Produces`).

* `grown_of_forM`: going through files writes their targets and nothing else.
* `stopped_of_forM`: if it fails, only the targets of the files before the failing one are written.
* `produced_of_forM`: if it does not fail, each target holds the text computed for it, in the tree
  that the steps before it left.
-/

namespace Folio

open FileTree

/-- The tree is well-formed, and the working folder is there. -/
structure Workspace.WellFormed (workspace : Workspace) : Prop where
  tree : workspace.tree.WellFormed
  home : workspace.tree.get? workspace.home = some .folder

instance (workspace : Workspace) : Decidable workspace.WellFormed :=
  decidable_of_iff (workspace.tree.WellFormed ∧
    workspace.tree.get? workspace.home = some .folder)
    ⟨fun h => ⟨h.1, h.2⟩, fun h => ⟨h.tree, h.home⟩⟩

/-- A run has written the given files and made the given folders, and nothing else has changed in
the tree. -/
structure Workspace.Grown (files folders : Location → Prop) (before after : Workspace) : Prop where
  wellFormed : after.WellFormed
  home : after.home = before.home
  tree : Grows files folders before.tree after.tree

namespace Workspace

variable {files moreFiles folders moreFolders : Location → Prop}
  {workspace before middle after : Workspace}

theorem WellFormed.home_proper (h : workspace.WellFormed) : workspace.home.Proper :=
  h.tree.proper _ (by rw [h.home]; rfl)

theorem WellFormed.printed (h : workspace.WellFormed) (console : Console) :
    WellFormed { workspace with console } := ⟨h.tree, h.home⟩

theorem Grown.refl (h : workspace.WellFormed) : Grown files folders workspace workspace :=
  ⟨h, rfl, .refl _⟩

theorem Grown.printed (h : workspace.WellFormed) (console : Console) :
    Grown files folders workspace { workspace with console } :=
  ⟨h.printed console, rfl, .refl _⟩

theorem Grown.trans (hfirst : Grown files folders before middle)
    (hsecond : Grown files folders middle after) : Grown files folders before after :=
  ⟨hsecond.wellFormed, hsecond.home.trans hfirst.home, hfirst.tree.trans hsecond.tree⟩

theorem Grown.mono (h : Grown files folders before after)
    (hfiles : ∀ location, files location → moreFiles location)
    (hfolders : ∀ location, folders location → moreFolders location) :
    Grown moreFiles moreFolders before after :=
  ⟨h.wellFormed, h.home, h.tree.mono hfiles hfolders⟩

/-- Growing keeps the working folder, so a well-formed tree is enough. -/
theorem Grown.of_tree (hwf : before.WellFormed) (htree : Grows files folders before.tree after.tree)
    (hhome : after.home = before.home) (hafter : after.tree.WellFormed) :
    Grown files folders before after :=
  ⟨⟨hafter, hhome ▸ htree.folder_kept hwf.home⟩, hhome, htree⟩

end Workspace

namespace Build

open Workspace Run

variable {folder : Location} {name : Text} {before after : Workspace}

/-! ## One step -/

/-- What a step can do that computes a text and writes it into a folder under a name. -/
inductive Produces (computes : FileTree → Location → Text → Prop) (folder : Location) (name : Text)
    (before : Workspace) : Except Failure PUnit → Workspace → Prop
  /-- It fails, and no file has changed. -/
  | failed {failure : Failure} {after : Workspace}
      (grown : Grown (fun _ => False) (· <+: folder) before after) :
      Produces computes folder name before (.error failure) after
  /-- It is done, and the text is there. -/
  | done {text : Text} {after : Workspace} (computed : computes before.tree before.home text)
      (grown : Grown (· = folder ++ [name]) (· <+: folder) before after)
      (written : after.tree.get? (folder ++ [name]) = some (.file (Utf8.encode text)))
      (fits : (Path.ofLocation (folder ++ [name])).Fits) :
      Produces computes folder name before (.ok ⟨⟩) after

/-- Make the folder of a file and write a text into the file. -/
def publish (target : Path) (text : Text) : Run PUnit := do
  makeFolders target.parent
  writeText target text

theorem produces_of_publish (hwf : before.WellFormed) (hfolder : folder.Proper)
    (hname : IsName name) {text : Text} {result : Except Failure PUnit}
    (h : exec (publish (Path.ofLocation (folder ++ [name])) text) before = (result, after)) :
    Produces (fun _ _ computed => computed = text) folder name before result after := by
  have hproper : ∀ part ∈ (Path.ofLocation (folder ++ [name])).parts, IsName part :=
    hfolder.snoc hname
  have hresolve : (Path.ofLocation (folder ++ [name])).resolve before.home = folder ++ [name] :=
    Path.resolve_ofLocation (hfolder.snoc hname)
  have hne : folder ++ [name] ≠ [] := by simp
  obtain ⟨hmade, -⟩ := made_of_makeFolders hwf.tree hfolder before.home
  unfold publish at h
  rw [Path.parent_ofLocation, List.dropLast_concat, exec_bind, exec_makeFolders] at h
  generalize before.tree.makeFolders before.home (Path.ofLocation folder) = made at h hmade
  obtain ⟨tree, failure | ⟨⟩⟩ := made
  · obtain ⟨rfl, rfl⟩ := Prod.mk.inj h
    exact .failed (.of_tree hwf hmade.grows rfl hmade.wellFormed)
  · simp only [Except.mapError, exec_writeText] at h
    split at h
    · rename_i written hwritten
      obtain ⟨rfl, rfl⟩ := Prod.mk.inj h
      obtain ⟨hfits, hentry, habove, rfl⟩ := of_writeBytes hproper hne hwritten
      rw [hresolve] at hentry habove ⊢
      rw [List.dropLast_concat] at habove
      refine .done rfl (.of_tree hwf ?_ rfl ?_) ?_ hfits
      · exact (hmade.grows.mono (fun _ hfile => hfile.elim) fun _ h => h).trans
          (.insert_file hne _ rfl hentry)
      · exact hmade.wellFormed.insert hname habove (.inr hentry)
      · rw [get?_insert _ _ hne, if_pos rfl]
    · obtain ⟨rfl, rfl⟩ := Prod.mk.inj h
      exact .failed (.of_tree hwf hmade.grows rfl hmade.wellFormed)

/-- Up to publishing a text with the given property, the run only reads and prints. -/
def Publishes {α : Type} (computes : Text → Prop) (target : Path) (home : Location)
    (tree : FileTree) (run : Run α) : Prop :=
  ∀ console,
    (∃ failure console',
      exec run ⟨home, tree, console⟩ = (.error failure, ⟨home, tree, console'⟩)) ∨
      ∃ text console' value, computes text ∧
        exec run ⟨home, tree, console⟩ =
          exec (publish target text >>= fun _ => pure value) ⟨home, tree, console'⟩

section Publishes

variable {α β : Type} {computes : Text → Prop} {target : Path} {home : Location} {tree : FileTree}

theorem Publishes.throw (failure : Failure) (next : PUnit → Run α) :
    Publishes computes target home tree (MonadExcept.throw failure >>= next) :=
  fun console => .inl ⟨failure, console, rfl⟩

theorem Publishes.publish {text : Text} (h : computes text) (value : α) :
    Publishes computes target home tree
      (do makeFolders target.parent; writeText target text; return value) := by
  intro console
  refine .inr ⟨text, console, value, h, ?_⟩
  unfold Build.publish
  rw [bind_assoc]

theorem Publishes.get {next : Workspace → Run α}
    (h : ∀ console, Publishes computes target home tree (next ⟨home, tree, console⟩)) :
    Publishes computes target home tree (MonadState.get >>= next) :=
  fun console => h console console

theorem Publishes.report (printed : Report) {next : PUnit → Run α}
    (h : Publishes computes target home tree (next ⟨⟩)) :
    Publishes computes target home tree (Run.report printed >>= next) :=
  fun console => h (console.report printed)

theorem Publishes.reportAll (printed : List Report) {next : PUnit → Run α}
    (h : Publishes computes target home tree (next ⟨⟩)) :
    Publishes computes target home tree (Run.reportAll printed >>= next) :=
  fun console => h (console.reportAll printed)

/-- A step that reads comes before publishing. -/
theorem Publishes.read {run : Run α} {next : α → Run β} (result : Except Failure α)
    (hrun : ∀ console, exec run ⟨home, tree, console⟩ = (result, ⟨home, tree, console⟩))
    (hnext : ∀ value, result = .ok value → Publishes computes target home tree (next value)) :
    Publishes computes target home tree (run >>= next) := by
  intro console
  rw [exec_bind, hrun]
  cases result with
  | error failure => exact .inl ⟨failure, console, rfl⟩
  | ok value => exact hnext value rfl console

theorem Publishes.pathExists (path : Path) {next : Bool → Run α}
    (h : ∀ found, Publishes computes target home tree (next found)) :
    Publishes computes target home tree (Run.pathExists path >>= next) := by
  refine .read (((tree.lookAt home path.route).mapError .file).map (·.isSome)) ?_ ?_
  · exact fun _ => exec_pathExists path
  · exact fun found _ => h found

theorem Publishes.readText (path : Path) {next : Text → Run α}
    (h : ∀ text, tree.readText home path.route = .ok text →
      Publishes computes target home tree (next text)) :
    Publishes computes target home tree (Run.readText path >>= next) := by
  refine .read ((tree.readText home path.route).mapError .ofRead) ?_ ?_
  · exact fun _ => exec_readText path
  · exact fun text htext => h text (eq_ok_of_mapError htext)

theorem Publishes.ofExcept {ε : Type} (wrap : ε → Failure) (result : Except ε α) {next : α → Run β}
    (h : ∀ value, result = .ok value → Publishes computes target home tree (next value)) :
    Publishes computes target home tree (Run.ofExcept wrap result >>= next) := by
  refine .read (result.mapError wrap) (fun _ => exec_ofExcept wrap result) ?_
  exact fun value hvalue => h value (eq_ok_of_mapError hvalue)

end Publishes

/-- A step whose every run is as described. -/
def IsProducer (computes : FileTree → Location → Text → Prop) (folder : Location) (name : Text)
    (step : Run PUnit) : Prop :=
  ∀ before result after, before.WellFormed → exec step before = (result, after) →
    Produces computes folder name before result after

theorem isProducer_of_publishes {α : Type} {computes : FileTree → Location → Text → Prop}
    {run : Run α} (hfolder : folder.Proper) (hname : IsName name)
    (h : ∀ home tree,
      Publishes (computes tree home) (Path.ofLocation (folder ++ [name])) home tree run) :
    IsProducer computes folder name (discard run) := by
  intro before result after hwf hexec
  rw [exec_discard] at hexec
  rcases h before.home before.tree before.console with ⟨failure, console, hfailed⟩ |
    ⟨text, console, value, hcomputes, hpublished⟩
  · rw [hfailed] at hexec
    obtain ⟨rfl, rfl⟩ := Prod.mk.inj hexec
    exact .failed (.printed hwf console)
  · rw [hpublished, exec_bind] at hexec
    rcases hpublish :
      exec (publish (Path.ofLocation (folder ++ [name])) text) { before with console } with
      ⟨published, last⟩
    rw [hpublish] at hexec
    cases produces_of_publish (hwf.printed console) hfolder hname hpublish with
    | failed hgrown =>
      obtain ⟨rfl, rfl⟩ := Prod.mk.inj hexec
      exact .failed ⟨hgrown.wellFormed, hgrown.home, hgrown.tree⟩
    | done hsame hgrown hwritten hfits =>
      subst hsame
      obtain ⟨rfl, rfl⟩ := Prod.mk.inj hexec
      exact .done hcomputes ⟨hgrown.wellFormed, hgrown.home, hgrown.tree⟩ hwritten hfits

/-! ## Going through files -/

section Sweep

variable {step : Path → Run PUnit} {computes : Path → FileTree → Location → Text → Prop}
  {target : Path → Text} {sources : List Path}

/-- The location is the target of one of the files. -/
def IsTarget (folder : Location) (target : Path → Text) (sources : List Path)
    (location : Location) : Prop :=
  ∃ source ∈ sources, location = folder ++ [target source]

/-- What is apart from the folder is as before. -/
theorem get?_of_apart (h : Grown (IsTarget folder target sources) (· <+: folder) before after)
    {location : Location} (hapart : location.Apart folder) :
    after.tree.get? location = before.tree.get? location :=
  h.tree.get?_eq (fun ⟨_, _, hsame⟩ => hapart.snoc_ne _ hsame) hapart.1

theorem grown_of_forM
    (hsteps : ∀ source ∈ sources, IsProducer (computes source) folder (target source) (step source))
    (hwf : before.WellFormed) (h : exec (sources.forM step) before = (.ok ⟨⟩, after)) :
    Grown (IsTarget folder target sources) (· <+: folder) before after := by
  induction sources generalizing before with
  | nil =>
    obtain ⟨-, rfl⟩ := Prod.mk.inj h
    exact .refl hwf
  | cons source rest ih =>
    rw [exec_forM_cons, exec_bind_eq_ok] at h
    obtain ⟨_, middle, hstep, hrest⟩ := h
    have hproduces := hsteps source List.mem_cons_self before _ middle hwf hstep
    cases hproduces with
    | done _ hgrown _ _ =>
      have hsteps' := fun other hother => hsteps other (List.mem_cons_of_mem _ hother)
      refine (hgrown.mono ?_ fun _ h => h).trans ((ih hsteps' hgrown.wellFormed hrest).mono ?_ ?_)
      · exact fun location hlocation => ⟨source, List.mem_cons_self, hlocation⟩
      · exact fun location ⟨other, hother, hlocation⟩ =>
          ⟨other, List.mem_cons_of_mem _ hother, hlocation⟩
      · exact fun _ h => h

/-- If going through files fails, only the targets of the files before the failing one have been
written. -/
theorem stopped_of_forM {failure : Failure}
    (hsteps : ∀ source ∈ sources, IsProducer (computes source) folder (target source) (step source))
    (hwf : before.WellFormed) (h : exec (sources.forM step) before = (.error failure, after)) :
    ∃ first failing rest middle, sources = first ++ failing :: rest ∧
      exec (first.forM step) before = (.ok ⟨⟩, middle) ∧
      exec (step failing) middle = (.error failure, after) ∧
      Grown (IsTarget folder target first) (· <+: folder) before after := by
  obtain ⟨first, failing, rest, middle, rfl, hfirst, hfailing⟩ := exec_forM_eq_error h
  have hgrown := grown_of_forM
    (fun source hsource => hsteps source (List.mem_append_left _ hsource)) hwf hfirst
  have hproduces := hsteps failing (by simp) middle _ after hgrown.wellFormed hfailing
  cases hproduces with
  | failed hstopped =>
    exact ⟨first, failing, rest, middle, rfl, hfirst, hfailing,
      hgrown.trans (hstopped.mono (fun _ hfile => hfile.elim) fun _ h => h)⟩

/-- If going through files does not fail, a target that no later file shares holds the text that
was computed for it. -/
theorem produced_of_forM {first rest : List Path} {source : Path}
    (hsteps : ∀ other ∈ first ++ source :: rest,
      IsProducer (computes other) folder (target other) (step other))
    (hwf : before.WellFormed)
    (h : exec ((first ++ source :: rest).forM step) before = (.ok ⟨⟩, after))
    (hlater : ∀ other ∈ rest, target other ≠ target source) :
    ∃ middle text, exec (first.forM step) before = (.ok ⟨⟩, middle) ∧
      Grown (IsTarget folder target first) (· <+: folder) before middle ∧
      computes source middle.tree middle.home text ∧
      after.tree.get? (folder ++ [target source]) = some (.file (Utf8.encode text)) ∧
      (Path.ofLocation (folder ++ [target source])).Fits := by
  obtain ⟨middle, hfirst, hfrom⟩ := exec_forM_append h
  rw [exec_forM_cons, exec_bind_eq_ok] at hfrom
  obtain ⟨_, next, hstep, hrest⟩ := hfrom
  have hgrown := grown_of_forM
    (fun other hother => hsteps other (List.mem_append_left _ hother)) hwf hfirst
  have hproduces := hsteps source (by simp) middle _ next hgrown.wellFormed hstep
  cases hproduces with
  | done hcomputed hnext hwritten hfits =>
    have hlast := grown_of_forM (fun other hother => hsteps other (by simp [hother]))
      hnext.wellFormed hrest
    refine ⟨middle, _, hfirst, hgrown, hcomputed, ?_, hfits⟩
    rw [← hwritten]
    refine hlast.tree.get?_eq ?_ ?_
    · rintro ⟨other, hother, hsame⟩
      exact hlater other hother (by simpa using hsame.symm)
    · intro hinside
      have := hinside.length_le
      rw [List.length_append, List.length_singleton] at this
      omega

end Sweep

end Build

end Folio
