import Folio.Proofs.Files.View

/-!
# Making folders and writing files, once and again

A file can be written inside a folder that is there, unless a folder has its name
(`writeBytes_eq_ok`).

Folders can be made at a location if no file is in the way and the names fit (`Creatable`); then all
that is above the location is a folder, and nothing else has changed (`makeFolders_of_creatable`).

Making folders a second time changes nothing. If it was done before, it is done again
(`makeFolders_of_folder`). If it went wrong, it goes wrong again, but for the same reason only if
the names above the location are not too long (`makeFolders_stuck`): with the folders that the first
attempt has made, the second one may come to a name that the first one never looked at.
-/

namespace Folio.FileTree

variable {tree other after : FileTree} {home start location folder : Location} {steps : List Text}
  {name : Text} {error : FileError}

/-! ## Ways that go wrong -/

theorem follow_append (tree : FileTree) (start : Location) (steps more : List Text) :
    tree.follow start (steps ++ more) =
      match tree.follow start steps with
      | .ok location => tree.follow location more
      | .error obstacle => .error obstacle := by
  induction steps generalizing start with
  | nil => rfl
  | cons step steps ih =>
    rw [List.cons_append, follow, follow]
    rcases tree.get? start with _ | _ | _
    · rfl
    · rfl
    · dsimp only
      split_ifs
      · rfl
      · exact ih _
      · exact ih _
      · exact ih _

theorem obstacle_of_follow {obstacle : Obstacle} (h : tree.follow start steps = .error obstacle) :
    obstacle = .missing ∨ obstacle = .notFolder ∨ obstacle = .tooLong := by
  induction steps generalizing start with
  | nil => cases h
  | cons step steps ih =>
    rw [follow] at h
    split at h
    · cases h
      exact .inl rfl
    · cases h
      exact .inr (.inl rfl)
    · split_ifs at h
      · cases h
        exact .inr (.inr rfl)
      · exact ih h
      · exact ih h
      · exact ih h

theorem follow_ne_notFolder (hsteps : ∀ step ∈ steps, IsName step)
    (h : ∀ front, front <+: steps → ∀ content, tree.get? (start ++ front) ≠ some (.file content)) :
    tree.follow start steps ≠ .error .notFolder := by
  induction steps generalizing start with
  | nil => exact fun hfollow => nomatch hfollow
  | cons step steps ih =>
    obtain ⟨hstep, hrest⟩ := List.forall_mem_cons.mp hsteps
    intro hfollow
    rw [follow] at hfollow
    split at hfollow
    · cases hfollow
    · rename_i content hfile
      have hstart := h [] List.nil_prefix content
      rw [List.append_nil] at hstart
      exact hstart hfile
    · rw [if_neg hstep.ne_up, if_neg hstep.ne_here] at hfollow
      split at hfollow
      · cases hfollow
      · refine ih hrest (fun front hfront content => ?_) hfollow
        rw [List.append_assoc]
        exact h (step :: front) (List.cons_prefix_cons.mpr ⟨rfl, hfront⟩) content

/-- Where something was missing before folders were made, no file is in the way afterwards. -/
theorem follow_ne_notFolder_of_made (hwf : tree.WellFormed) (hsteps : ∀ step ∈ steps, IsName step)
    {folders : Location → Prop} (hgrows : Grows (fun _ => False) folders tree after)
    (h : tree.follow start steps = .error .missing) :
    after.follow start steps ≠ .error .notFolder := by
  induction steps generalizing start with
  | nil => cases h
  | cons step steps ih =>
    obtain ⟨hstep, hrest⟩ := List.forall_mem_cons.mp hsteps
    rcases hentry : tree.get? start with _ | _ | _
    · -- nothing is below what is missing, so all that is there now has been made
      refine follow_ne_notFolder hsteps fun front _ content hfile => ?_
      have hnone : tree.get? (start ++ front) = none := by
        by_cases hfront : front = []
        · rw [hfront, List.append_nil, hentry]
        · by_contra hsome
          have habove := hwf.folder_above hfront (Option.isSome_iff_ne_none.mpr hsome)
          rw [hentry] at habove
          cases habove
      have hchange := hgrows (start ++ front)
      rw [hnone, hfile] at hchange
      cases hchange with
      | written _ hwrite _ => exact hwrite
    · rw [follow, hentry] at h
      cases h
    · have hfolder := hgrows.folder_kept hentry
      rw [follow, hentry] at h
      dsimp only at h
      split at h
      · cases h
      · rename_i hsize
        rw [if_neg hstep.ne_up, if_neg hstep.ne_here] at h
        rw [follow_name hstep hfolder (Nat.not_lt.mp hsize)]
        exact ih hrest h

/-! ## Inside a folder -/

/-- A way leads to every place inside a folder that is there. -/
theorem locate_inside (hwf : tree.WellFormed) (hproper : Location.Proper (folder ++ [name]))
    (hfits : (Path.ofLocation (folder ++ [name])).Fits) (hfolder : tree.get? folder = some .folder)
    (home : Location) :
    tree.locate home (Path.ofLocation (folder ++ [name])).route = .ok (folder ++ [name]) := by
  have hnames : ∀ part ∈ folder, IsName part :=
    fun part hpart => hproper part (List.mem_append_left _ hpart)
  have hsizes : ∀ part ∈ folder, Utf8.size part ≤ nameLimit := hfits.above.names
  have hlast : Utf8.size name ≤ nameLimit := hfits.names name (by simp [Path.ofLocation])
  have habove : tree.follow [] folder = .ok folder :=
    follow_eq_ok hwf hnames hsizes (by rw [List.nil_append, hfolder]; rfl)
  rw [locate_of_fits hfits]
  show tree.follow [] (folder ++ [name]) = _
  rw [follow_append, habove]
  dsimp only
  rw [follow_name (hproper name (by simp)) hfolder hlast]
  rfl

theorem writeBytes_eq_ok (hwf : tree.WellFormed) (hproper : Location.Proper (folder ++ [name]))
    (hfits : (Path.ofLocation (folder ++ [name])).Fits) (hfolder : tree.get? folder = some .folder)
    (hentry : tree.get? (folder ++ [name]) ≠ some .folder) (home : Location)
    (content : ByteArray) :
    tree.writeBytes home (Path.ofLocation (folder ++ [name])).route content =
      .ok (tree.insert (folder ++ [name]) (.file content)) :=
  writeBytes_eq_ok_iff.mpr ⟨_, locate_inside hwf hproper hfits hfolder home, hentry, rfl⟩

/-- What stands against writing a file stands against it in every tree with the same view. -/
theorem SameView.writeBytes (h : SameView tree other) {route : Route} {content : ByteArray}
    (hwrite : tree.writeBytes home route content = .error error) :
    other.writeBytes home route content = .error error := by
  unfold FileTree.writeBytes at hwrite ⊢
  dsimp only at hwrite ⊢
  rw [h.locate]
  cases hplace : tree.locate home
      { route with
        steps := if route.closed then route.steps.dropLast ++ [("." : Text)] else route.steps
        closed := false } with
  | error found =>
    rw [hplace] at hwrite
    exact hwrite
  | ok place =>
    rw [hplace] at hwrite
    dsimp only at hwrite ⊢
    rw [h.isFolder]
    split at hwrite
    · rename_i hfolder
      rw [if_pos hfolder]
      exact hwrite
    · cases hwrite

/-! ## One folder -/

/-- What making folders comes to if a folder cannot be made itself. -/
def giveUp (tree : FileTree) (home : Location) (path : Path) (obstacle : Obstacle) :
    FileTree × Except FileError Unit :=
  if obstacle ≠ .missing && tree.isFolderAt home path.route then (tree, .ok ())
  else (tree, .error ⟨obstacle, path.text⟩)

theorem makeFolders_root (tree : FileTree) (home : Location) :
    tree.makeFolders home (Path.ofLocation []) = (tree, .ok ()) := by
  rfl

/-- Making folders at a location inside a folder tries that folder first. -/
theorem makeFolders_snoc (tree : FileTree) (home folder : Location) (name : Text) :
    tree.makeFolders home (Path.ofLocation (folder ++ [name])) =
      match tree.makeFolder home (Path.ofLocation (folder ++ [name])) with
      | .ok made => (made, .ok ())
      | .error obstacle =>
        if obstacle = .missing then
          match tree.makeFolders home (Path.ofLocation folder) with
          | (above, .error error) => (above, .error error)
          | (above, .ok ()) =>
            match above.makeFolder home (Path.ofLocation (folder ++ [name])) with
            | .ok made => (made, .ok ())
            | .error obstacle => above.giveUp home (Path.ofLocation (folder ++ [name])) obstacle
        else tree.giveUp home (Path.ofLocation (folder ++ [name])) obstacle := by
  have hheight : (Path.ofLocation (folder ++ [name])).parts.length =
      (Path.ofLocation folder).parts.length + 1 := List.length_append
  have hparent : (Path.ofLocation (folder ++ [name])).parent = Path.ofLocation folder := by
    rw [Path.parent_ofLocation, List.dropLast_concat]
  unfold makeFolders
  rw [hheight, makeFoldersUpTo, hparent]
  cases tree.makeFolder home (Path.ofLocation (folder ++ [name])) with
  | ok made => rfl
  | error obstacle => cases obstacle <;> rfl

theorem makeFolders_of_isFolderAt
    (h : tree.isFolderAt home (Path.ofLocation location).route = true) :
    tree.makeFolders home (Path.ofLocation location) = (tree, .ok ()) := by
  rcases List.eq_nil_or_concat' location with rfl | ⟨folder, name, rfl⟩
  · exact makeFolders_root tree home
  · have hmake : tree.makeFolder home (Path.ofLocation (folder ++ [name])) = .error .occupied := by
      have hfolder := h
      unfold isFolderAt at hfolder
      unfold makeFolder
      split at hfolder
      · rename_i place hplace
        rw [hplace]
        dsimp only
        rw [isFolder_iff.mp hfolder]
        rfl
      · cases hfolder
    rw [makeFolders_snoc, hmake]
    dsimp only [giveUp]
    rw [h]
    rfl

theorem isFolderAt_of_folder (hwf : tree.WellFormed) (hproper : location.Proper)
    (hfits : (Path.ofLocation location).Fits) (hfolder : tree.get? location = some .folder)
    (home : Location) : tree.isFolderAt home (Path.ofLocation location).route = true := by
  have hnames : ∀ part ∈ (Path.ofLocation location).parts, IsName part := hproper
  have hresolve : (Path.ofLocation location).resolve home = location :=
    Path.resolve_ofLocation hproper
  unfold isFolderAt
  rw [locate_eq_ok hwf hnames hfits (by rw [hresolve, hfolder]; rfl), hresolve]
  exact isFolder_iff.mpr hfolder

theorem makeFolders_of_folder (hwf : tree.WellFormed) (hproper : location.Proper)
    (hfits : (Path.ofLocation location).Fits) (hfolder : tree.get? location = some .folder)
    (home : Location) : tree.makeFolders home (Path.ofLocation location) = (tree, .ok ()) :=
  makeFolders_of_isFolderAt (isFolderAt_of_folder hwf hproper hfits hfolder home)

/-! ## When folders can be made -/

/-- Nothing stands against making folders at the location. -/
structure Creatable (tree : FileTree) (location : Location) : Prop where
  fits : (Path.ofLocation location).Fits
  free : ∀ above, above <+: location → ∀ content, tree.get? above ≠ some (.file content)

theorem Creatable.above (h : Creatable tree (folder ++ [name])) : Creatable tree folder :=
  ⟨h.fits.above, fun above habove => h.free above (habove.trans (List.prefix_append _ _))⟩

theorem makeFolder_eq_ok (hwf : tree.WellFormed) (hproper : Location.Proper (folder ++ [name]))
    (hfits : (Path.ofLocation (folder ++ [name])).Fits) (hfolder : tree.get? folder = some .folder)
    (hnone : tree.get? (folder ++ [name]) = none) (home : Location) :
    tree.makeFolder home (Path.ofLocation (folder ++ [name])) =
      .ok (tree.insert (folder ++ [name]) .folder) := by
  unfold makeFolder
  rw [locate_inside hwf hproper hfits hfolder]
  dsimp only
  rw [hnone]
  rfl

/-- If nothing stands against it but the folder above is not there, then that is what is missing. -/
theorem makeFolder_eq_missing (hproper : Location.Proper (folder ++ [name]))
    (h : Creatable tree (folder ++ [name])) (hfolder : tree.get? folder ≠ some .folder)
    (home : Location) :
    tree.makeFolder home (Path.ofLocation (folder ++ [name])) = .error .missing := by
  have hfollow : tree.follow [] (folder ++ [name]) = .error .missing := by
    rcases hresult : tree.follow [] (folder ++ [name]) with obstacle | place
    · rcases obstacle_of_follow hresult with rfl | rfl | rfl
      · rfl
      · exact absurd hresult (follow_ne_notFolder hproper fun front hfront => h.free front hfront)
      · exact absurd hresult (follow_ne_tooLong hproper h.fits.names)
    · obtain ⟨rfl, -, habove⟩ := of_follow hproper hresult
      rw [List.nil_append, List.dropLast_concat] at habove
      exact absurd (habove (by simp)) hfolder
  have hlocate : tree.locate home (Path.ofLocation (folder ++ [name])).route =
      .error .missing := by
    rw [locate_of_fits h.fits]
    exact hfollow
  unfold makeFolder
  rw [hlocate]

theorem makeFolders_of_creatable (hwf : tree.WellFormed) (hproper : location.Proper)
    (h : Creatable tree location) (home : Location) :
    (tree.makeFolders home (Path.ofLocation location)).2 = .ok () := by
  induction location using List.reverseRecOn with
  | nil => rfl
  | append_singleton folder name ih =>
    have hfolder : Location.Proper folder :=
      fun part hpart => hproper part (List.mem_append_left _ hpart)
    rcases hentry : tree.get? (folder ++ [name]) with _ | content | _
    · rw [makeFolders_snoc]
      by_cases hthere : tree.get? folder = some .folder
      · rw [makeFolder_eq_ok hwf hproper h.fits hthere hentry]
      · rw [makeFolder_eq_missing hproper h hthere]
        dsimp only
        rw [if_pos rfl]
        have hdone := ih hfolder h.above
        obtain ⟨hmade, hfound⟩ := made_of_makeFolders hwf hfolder home
        have hunchanged : ¬ folder ++ [name] <+: folder := by
          intro hinside
          have := hinside.length_le
          rw [List.length_append, List.length_singleton] at this
          omega
        generalize tree.makeFolders home (Path.ofLocation folder) = made at hdone hmade hfound ⊢
        obtain ⟨above, failed | ⟨⟩⟩ := made
        · cases hdone
        · have hnone : above.get? (folder ++ [name]) = none := by
            rw [hmade.grows.get?_eq id hunchanged, hentry]
          dsimp only
          rw [makeFolder_eq_ok hmade.wellFormed hproper h.fits (hfound rfl).1 hnone]
    · exact absurd hentry (h.free _ (List.prefix_refl _) content)
    · rw [makeFolders_of_folder hwf hproper h.fits hentry]

/-- After folders have been made, they are there, and nothing else has changed. -/
theorem get?_of_makeFolders (hwf : tree.WellFormed) (hproper : location.Proper)
    (h : (tree.makeFolders home (Path.ofLocation location)).2 = .ok ()) (place : Location) :
    (tree.makeFolders home (Path.ofLocation location)).1.get? place =
      if place <+: location then some .folder else tree.get? place := by
  obtain ⟨hmade, hfound⟩ := made_of_makeFolders hwf hproper home
  split
  · rename_i habove
    obtain ⟨rest, rfl⟩ := habove
    by_cases hrest : rest = []
    · rw [hrest, List.append_nil] at hfound h ⊢
      exact (hfound h).1
    · exact hmade.wellFormed.folder_above hrest (by rw [(hfound h).1]; rfl)
  · rename_i hnot
    exact hmade.grows.get?_eq id hnot

/-! ## Going wrong again -/

theorem SameView.makeFolder (h : SameView tree other) {path : Path} {obstacle : Obstacle}
    (hmake : tree.makeFolder home path = .error obstacle) :
    other.makeFolder home path = .error obstacle := by
  unfold FileTree.makeFolder at hmake ⊢
  rw [h.locate]
  cases hplace : tree.locate home path.route with
  | error found =>
    rw [hplace] at hmake
    exact hmake
  | ok place =>
    rw [hplace] at hmake
    dsimp only at hmake ⊢
    rw [h place]
    split at hmake
    · rename_i hsome
      rw [if_pos hsome]
      exact hmake
    · cases hmake

theorem SameView.giveUp (h : SameView tree other) {path : Path} {obstacle : Obstacle}
    (hfailed : tree.giveUp home path obstacle = (after, .error error)) :
    after = tree ∧ other.giveUp home path obstacle = (other, .error error) := by
  unfold FileTree.giveUp at hfailed ⊢
  rw [h.isFolderAt]
  split at hfailed
  · cases hfailed
  · rename_i hnot
    obtain ⟨rfl, herror⟩ := Prod.mk.inj hfailed
    rw [if_neg hnot, herror]
    exact ⟨rfl, rfl⟩

theorem locate_of_makeFolder {path : Path} {obstacle : Obstacle} (hne : obstacle ≠ .occupied)
    (h : tree.makeFolder home path = .error obstacle) :
    tree.locate home path.route = .error obstacle := by
  unfold makeFolder at h
  split at h
  · rename_i found hfound
    rw [hfound, Except.error.inj h]
  · split at h
    · exact absurd (Except.error.inj h).symm hne
    · cases h

theorem sized_of_locate (h : tree.locate home (Path.ofLocation location).route = .error .missing) :
    (Path.ofLocation location).Sized := by
  unfold locate Path.route at h
  dsimp only at h
  have hne : (Path.ofLocation location).text ≠ [] := List.cons_ne_nil _ _
  rw [if_neg hne] at h
  split at h
  · cases h
  · rename_i hnul
    split at h
    · cases h
    · rename_i hsize
      exact ⟨hne, hnul, Nat.not_lt.mp hsize⟩

/-- A folder that cannot be used is in the way of everything inside it. -/
theorem blocked_of_not_isFolderAt (hproper : folder.Proper)
    (hsized : (Path.ofLocation (folder ++ [name])).Sized)
    (h : tree.isFolderAt home (Path.ofLocation folder).route = false) :
    ∃ obstacle, tree.makeFolder home (Path.ofLocation (folder ++ [name])) = .error obstacle ∧
      tree.follow [] (folder ++ [name]) = .error obstacle ∧
      tree.isFolderAt home (Path.ofLocation (folder ++ [name])).route = false ∧
      ((∀ part ∈ folder, Utf8.size part ≤ nameLimit) → obstacle ≠ .tooLong) := by
  have hlocate : tree.locate home (Path.ofLocation (folder ++ [name])).route =
      tree.follow [] (folder ++ [name]) := locate_of_sized hsized
  have habove : tree.locate home (Path.ofLocation folder).route = tree.follow [] folder :=
    locate_of_sized hsized.above
  suffices hfollow : ∃ obstacle, tree.follow [] (folder ++ [name]) = .error obstacle ∧
      ((∀ part ∈ folder, Utf8.size part ≤ nameLimit) → obstacle ≠ .tooLong) by
    obtain ⟨obstacle, hfollow, hlong⟩ := hfollow
    refine ⟨obstacle, ?_, hfollow, ?_, hlong⟩
    · unfold makeFolder
      rw [hlocate, hfollow]
    · unfold isFolderAt
      rw [hlocate, hfollow]
  rw [follow_append]
  unfold isFolderAt at h
  rw [habove] at h
  cases hfolder : tree.follow [] folder with
  | error obstacle =>
    refine ⟨obstacle, rfl, fun hsizes => ?_⟩
    rintro rfl
    exact follow_ne_tooLong hproper hsizes hfolder
  | ok place =>
    rw [hfolder] at h
    dsimp only at h ⊢
    rw [follow]
    rcases hentry : tree.get? place with _ | _ | _
    · exact ⟨.missing, rfl, fun _ => by decide⟩
    · exact ⟨.notFolder, rfl, fun _ => by decide⟩
    · rw [isFolder_iff.mpr hentry] at h
      cases h

/-- Inside a folder that can be used nothing is missing. -/
theorem makeFolder_ne_missing (hfolder : tree.isFolderAt home (Path.ofLocation folder).route = true)
    (hsized : (Path.ofLocation (folder ++ [name])).Sized) :
    tree.makeFolder home (Path.ofLocation (folder ++ [name])) ≠ .error .missing := by
  intro hmake
  have hlocate := locate_of_makeFolder (by decide) hmake
  rw [locate_of_sized hsized] at hlocate
  have hfollow : tree.follow [] (folder ++ [name]) = .error .missing := hlocate
  rw [follow_append] at hfollow
  unfold isFolderAt at hfolder
  rw [locate_of_sized hsized.above] at hfolder
  have hstart : tree.follow (if (Path.ofLocation folder).anchor = .relative then home else [])
      (Path.ofLocation folder).parts = tree.follow [] folder := rfl
  rw [hstart] at hfolder
  cases hplace : tree.follow [] folder with
  | error obstacle =>
    rw [hplace] at hfolder
    cases hfolder
  | ok place =>
    rw [hplace] at hfolder hfollow
    dsimp only at hfolder hfollow
    rw [follow, isFolder_iff.mp hfolder] at hfollow
    dsimp only at hfollow
    split_ifs at hfollow <;> cases hfollow

/-- An obstacle that is not something missing is met again. -/
theorem makeFolders_again {obstacle : Obstacle} (hne : obstacle ≠ .missing)
    (hmake : tree.makeFolder home (Path.ofLocation (folder ++ [name])) = .error obstacle)
    (h : tree.giveUp home (Path.ofLocation (folder ++ [name])) obstacle = (after, .error error))
    (hview : SameView after other) :
    other.makeFolders home (Path.ofLocation (folder ++ [name])) = (other, .error error) := by
  obtain rfl := ((SameView.refl tree).giveUp h).1
  rw [makeFolders_snoc, hview.makeFolder hmake]
  dsimp only
  rw [if_neg hne]
  exact (hview.giveUp h).2

/-- If the folder above cannot be made, neither can the folder. -/
theorem makeFolders_stuck_above (hwf : tree.WellFormed) (hfolder : folder.Proper)
    (hname : IsName name)
    (hmake : tree.makeFolder home (Path.ofLocation (folder ++ [name])) = .error .missing)
    {folders : Location → Prop} (hgrows : Grows (fun _ => False) folders tree other)
    (habove : other.makeFolders home (Path.ofLocation folder) = (other, .error error)) :
    ∃ again, other.makeFolders home (Path.ofLocation (folder ++ [name])) = (other, .error again) ∧
      ((∀ part ∈ folder, Utf8.size part ≤ nameLimit) → again = error) := by
  have hlocate := locate_of_makeFolder (by decide) hmake
  have hsized := sized_of_locate hlocate
  rw [locate_of_sized hsized] at hlocate
  have hnot : other.isFolderAt home (Path.ofLocation folder).route = false := by
    by_contra hthere
    rw [makeFolders_of_isFolderAt (by simpa using hthere)] at habove
    cases habove
  obtain ⟨obstacle, hblocked, hfollow, hinside, hlong⟩ :=
    blocked_of_not_isFolderAt hfolder hsized hnot
  rw [makeFolders_snoc, hblocked]
  dsimp only
  by_cases hmissing : obstacle = .missing
  · rw [if_pos hmissing, habove]
    exact ⟨error, rfl, fun _ => rfl⟩
  · rw [if_neg hmissing, giveUp, hinside, Bool.and_false, if_neg Bool.false_ne_true]
    refine ⟨_, rfl, fun hsizes => absurd ?_ hmissing⟩
    rcases obstacle_of_follow hfollow with hobstacle | hobstacle | hobstacle
    · exact hobstacle
    · rw [hobstacle] at hfollow
      exact absurd hfollow (follow_ne_notFolder_of_made hwf (hfolder.snoc hname) hgrows hlocate)
    · exact absurd hobstacle (hlong hsizes)

/-- **If making folders has gone wrong, it goes wrong again and changes nothing**, for the same
reason if the names above the location are not too long. -/
theorem makeFolders_stuck (hwf : tree.WellFormed) (hproper : location.Proper)
    (h : tree.makeFolders home (Path.ofLocation location) = (after, .error error))
    (hview : SameView after other) :
    ∃ again, other.makeFolders home (Path.ofLocation location) = (other, .error again) ∧
      ((∀ part ∈ location.dropLast, Utf8.size part ≤ nameLimit) → again = error) := by
  induction location using List.reverseRecOn generalizing after error with
  | nil =>
    rw [makeFolders_root] at h
    cases h
  | append_singleton folder name ih =>
    have hfolder : Location.Proper folder :=
      fun part hpart => hproper part (List.mem_append_left _ hpart)
    have hname : IsName name := hproper name (by simp)
    obtain ⟨hmade, hdone⟩ := made_of_makeFolders hwf hfolder home
    rw [makeFolders_snoc] at h
    rw [List.dropLast_concat]
    rcases hmake : tree.makeFolder home (Path.ofLocation (folder ++ [name])) with obstacle | made
    · rw [hmake] at h
      dsimp only at h
      by_cases hmissing : obstacle = .missing
      · subst hmissing
        rw [if_pos rfl] at h
        rcases habove : tree.makeFolders home (Path.ofLocation folder) with ⟨above, failed | ⟨⟩⟩
        · rw [habove] at h hmade
          obtain ⟨rfl, herror⟩ := Prod.mk.inj h
          obtain rfl := Except.error.inj herror
          obtain ⟨first, hfirst, hexact⟩ := ih hfolder habove hview
          obtain ⟨again, hagain, hsame⟩ := makeFolders_stuck_above hwf hfolder hname hmake
            (hmade.grows.trans hview.grows) hfirst
          refine ⟨again, hagain, fun hsizes => (hsame hsizes).trans (hexact ?_)⟩
          exact fun part hpart => hsizes part (List.dropLast_subset _ hpart)
        · -- the folder above is there now, so what is in the way is not that it is missing
          rw [habove] at h hmade hdone
          obtain ⟨hthere, hfits⟩ := hdone rfl
          have hsized := sized_of_locate (locate_of_makeFolder (by decide) hmake)
          have hne := makeFolder_ne_missing
            (isFolderAt_of_folder hmade.wellFormed hfolder hfits hthere home) hsized
          dsimp only at h
          rcases hsecond : above.makeFolder home (Path.ofLocation (folder ++ [name])) with
            obstacle | made
          · rw [hsecond] at h hne
            refine ⟨error, makeFolders_again ?_ hsecond h hview, fun _ => rfl⟩
            rintro rfl
            exact hne rfl
          · rw [hsecond] at h
            cases h
      · rw [if_neg hmissing] at h
        exact ⟨error, makeFolders_again hmissing hmake h hview, fun _ => rfl⟩
    · rw [hmake] at h
      cases h

end Folio.FileTree
