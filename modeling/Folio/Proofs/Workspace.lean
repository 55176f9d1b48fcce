import Folio.Workspace

/-!
# Carrying out a run

`Run.exec` carries out a run in a workspace: it gives the outcome and the workspace that is left,
also if the run failed. Each step of a run has an equation for it here, so that what a longer run
does is found by taking it apart with `exec_bind`, `exec_bind_eq_ok` and `exec_bind_eq_error`.

Going through a list ends either behind its last member or at the first one that fails
(`exec_forM_append`, `exec_forM_eq_error`).
-/

namespace Folio.Run

variable {α β ε : Type} {workspace after : Workspace}

/-- The outcome of a run and the workspace that it leaves. -/
def exec (run : Run α) (workspace : Workspace) : Except Failure α × Workspace :=
  run.run.run workspace

/-! ## Sequences -/

@[simp] theorem exec_pure (value : α) : exec (pure value) workspace = (.ok value, workspace) := rfl

@[simp] theorem exec_throw (failure : Failure) :
    exec (throw failure : Run α) workspace = (.error failure, workspace) := rfl

theorem exec_bind (run : Run α) (next : α → Run β) :
    exec (run >>= next) workspace =
      match exec run workspace with
      | (.ok value, after) => exec (next value) after
      | (.error failure, after) => (.error failure, after) := by
  unfold exec ExceptT.run StateT.run
  simp only [bind, ExceptT.bind, ExceptT.mk, StateT.bind, ExceptT.bindCont]
  rcases run workspace with ⟨failure | value, after⟩ <;> rfl

theorem exec_bind_eq_ok {run : Run α} {next : α → Run β} {value : β} :
    exec (run >>= next) workspace = (.ok value, after) ↔
      ∃ found middle, exec run workspace = (.ok found, middle) ∧
        exec (next found) middle = (.ok value, after) := by
  rw [exec_bind]
  rcases exec run workspace with ⟨failure | found, middle⟩
  · simp
  · constructor
    · intro h
      exact ⟨found, middle, rfl, h⟩
    · rintro ⟨_, _, ⟨⟩, h⟩
      exact h

theorem exec_bind_eq_error {run : Run α} {next : α → Run β} {failure : Failure} :
    exec (run >>= next) workspace = (.error failure, after) ↔
      exec run workspace = (.error failure, after) ∨
        ∃ found middle, exec run workspace = (.ok found, middle) ∧
          exec (next found) middle = (.error failure, after) := by
  rw [exec_bind]
  rcases exec run workspace with ⟨failure | found, middle⟩
  · simp
  · constructor
    · intro h
      exact .inr ⟨found, middle, rfl, h⟩
    · rintro (⟨⟨⟩⟩ | ⟨_, _, ⟨⟩, h⟩)
      exact h

theorem exec_map (run : Run α) (f : α → β) :
    exec (f <$> run) workspace =
      ((exec run workspace).1.map f, (exec run workspace).2) := by
  rw [← bind_pure_comp, exec_bind]
  rcases exec run workspace with ⟨failure | found, middle⟩ <;> rfl

theorem exec_discard (run : Run α) :
    exec (discard run) workspace =
      ((exec run workspace).1.map fun _ => PUnit.unit, (exec run workspace).2) := exec_map _ _

theorem discard_bind (run : Run α) (next : α → Run β) :
    discard (run >>= next) = run >>= fun value => discard (next value) :=
  map_bind (Function.const β PUnit.unit) run next

theorem exec_tryCatch (run : Run α) (handle : Failure → Run α) :
    exec (tryCatch run handle) workspace =
      match exec run workspace with
      | (.ok value, after) => (.ok value, after)
      | (.error failure, after) => exec (handle failure) after := by
  unfold exec ExceptT.run StateT.run
  simp only [tryCatch, tryCatchThe, MonadExceptOf.tryCatch, ExceptT.tryCatch, ExceptT.mk, bind,
    StateT.bind]
  rcases run workspace with ⟨failure | value, after⟩ <;> rfl

/-! ## Single steps -/

theorem exec_get_bind (next : Workspace → Run β) :
    exec (get >>= next) workspace = exec (next workspace) workspace := rfl

theorem exec_modify (change : Workspace → Workspace) :
    exec (modify change) workspace = (.ok (), change workspace) := rfl

theorem exec_ofExcept (wrap : ε → Failure) (result : Except ε α) :
    exec (ofExcept wrap result) workspace = (result.mapError wrap, workspace) := by
  cases result <;> rfl

theorem exec_pathExists (path : Path) :
    exec (pathExists path) workspace =
      (((workspace.tree.lookAt workspace.home path.route).mapError .file).map (·.isSome),
        workspace) := by
  unfold pathExists
  rw [exec_get_bind, exec_bind, exec_ofExcept]
  cases workspace.tree.lookAt workspace.home path.route <;> rfl

theorem exec_readText (path : Path) :
    exec (readText path) workspace =
      ((workspace.tree.readText workspace.home path.route).mapError .ofRead, workspace) := by
  unfold readText
  rw [exec_get_bind, exec_ofExcept]

theorem exec_makeFolders (path : Path) :
    exec (makeFolders path) workspace =
      ((workspace.tree.makeFolders workspace.home path).2.mapError .file,
        { workspace with tree := (workspace.tree.makeFolders workspace.home path).1 }) := by
  unfold makeFolders
  rw [exec_get_bind]
  rcases workspace.tree.makeFolders workspace.home path with ⟨tree, failure | ⟨⟩⟩ <;> rfl

theorem exec_writeText (path : Path) (text : Text) :
    exec (writeText path text) workspace =
      match workspace.tree.writeBytes workspace.home path.route (Utf8.encode text) with
      | .ok tree => (.ok (), { workspace with tree })
      | .error error => (.error (.file error), workspace) := by
  unfold writeText
  rw [exec_get_bind, exec_bind, exec_ofExcept]
  cases workspace.tree.writeBytes workspace.home path.route (Utf8.encode text) <;> rfl

theorem exec_listMarkdown (folder : Path) :
    exec (listMarkdown folder) workspace =
      ((workspace.tree.list workspace.home folder ".md").mapError .file, workspace) := by
  unfold listMarkdown
  rw [exec_get_bind, exec_ofExcept]

/-! ## Going through a list -/

section List

variable {step : α → Run PUnit} {list first rest : List α}

theorem exec_forM_cons (member : α) :
    exec ((member :: rest).forM step) workspace =
      exec (step member >>= fun _ => rest.forM step) workspace := rfl

/-- What has been gone through to its end has been gone through up to every place in it. -/
theorem exec_forM_append (h : exec ((first ++ rest).forM step) workspace = (.ok ⟨⟩, after)) :
    ∃ middle, exec (first.forM step) workspace = (.ok ⟨⟩, middle) ∧
      exec (rest.forM step) middle = (.ok ⟨⟩, after) := by
  induction first generalizing workspace with
  | nil => exact ⟨workspace, rfl, h⟩
  | cons member first ih =>
    rw [List.cons_append, exec_forM_cons, exec_bind_eq_ok] at h
    obtain ⟨_, next, hstep, hrest⟩ := h
    obtain ⟨middle, hfirst, hrest⟩ := ih hrest
    refine ⟨middle, ?_, hrest⟩
    rw [exec_forM_cons, exec_bind_eq_ok]
    exact ⟨_, next, hstep, hfirst⟩

/-- Going through a list fails at one of its members, behind others that did not fail. -/
theorem exec_forM_eq_error {failure : Failure}
    (h : exec (list.forM step) workspace = (.error failure, after)) :
    ∃ first member rest middle, list = first ++ member :: rest ∧
      exec (first.forM step) workspace = (.ok ⟨⟩, middle) ∧
      exec (step member) middle = (.error failure, after) := by
  induction list generalizing workspace with
  | nil => cases h
  | cons member list ih =>
    rw [exec_forM_cons, exec_bind_eq_error] at h
    rcases h with hstep | ⟨_, next, hstep, hrest⟩
    · exact ⟨[], member, list, workspace, rfl, rfl, hstep⟩
    · obtain ⟨first, failing, rest, middle, rfl, hfirst, hfailing⟩ := ih hrest
      refine ⟨member :: first, failing, rest, middle, rfl, ?_, hfailing⟩
      rw [exec_forM_cons, exec_bind_eq_ok]
      exact ⟨_, next, hstep, hfirst⟩

/-- Adding up numbers while going through a list does the same to the workspace as leaving them
out. -/
theorem exec_sum (count : α → Run Nat) (list : List α) (total : Nat) :
    exec (discard (list.foldlM (fun total member => return total + (← count member)) total))
        workspace =
      exec (list.forM fun member => discard (count member)) workspace := by
  induction list generalizing workspace total with
  | nil => rfl
  | cons member list ih =>
    rw [exec_forM_cons, exec_bind, exec_discard (count member), List.foldlM_cons, exec_discard,
      exec_bind, bind_pure_comp, exec_map]
    rcases exec (count member) workspace with ⟨failure | number, next⟩
    · rfl
    · exact (exec_discard _).symm.trans (ih _)

end List

end Folio.Run
