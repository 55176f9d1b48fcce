import Folio.Proofs.Files.Path
import Folio.Proofs.Text.Lines

/-!
# Reading and writing well-formed trees

In a well-formed tree a path without `..` leads to its own location, so reading at it depends on
the entry at that location and on nothing else (`readText_eq_ok_iff`, `lookAt_of_fits`). Writing
changes that one entry (`of_writeBytes`); making folders changes nothing but what is above it or is
it (`makeFolders_made`). All of them leave the tree well-formed.
-/

namespace Folio

/-- The path can be used, as far as its text tells: it is not too long, and neither is a name on
it. -/
structure Path.Fits (path : Path) : Prop where
  ne_nil : path.text ≠ []
  noNul : '\x00' ∉ path.text
  size : Utf8.size path.text ≤ pathLimit
  names : ∀ part ∈ path.parts, Utf8.size part ≤ nameLimit

theorem Text.join_prefix_snoc (separator : Text) (texts : List Text) (last : Text) :
    join separator texts <+: join separator (texts ++ [last]) := by
  induction texts with
  | nil => exact List.nil_prefix
  | cons first rest ih =>
    cases rest with
    | nil =>
      rw [List.singleton_append, join_singleton, join_cons_cons]
      exact ⟨separator ++ join separator [last], by simp⟩
    | cons second others =>
      rw [List.cons_append, List.cons_append, join_cons_cons, join_cons_cons]
      exact (List.prefix_append_right_inj _).mpr ih

theorem Utf8.size_le_of_begins {text other : Text} (h : text <+: other) :
    Utf8.size text ≤ Utf8.size other := by
  obtain ⟨rest, rfl⟩ := h
  unfold Utf8.size
  rw [List.foldl_append]
  generalize text.foldl (fun n c => n + c.utf8Size) 0 = start
  induction rest generalizing start with
  | nil => exact Nat.le_refl _
  | cons c rest ih => exact Nat.le_trans (Nat.le_add_right _ _) (ih _)

/-- The text of the path can be used, whatever the size of its names. -/
structure Path.Sized (path : Path) : Prop where
  ne_nil : path.text ≠ []
  noNul : '\x00' ∉ path.text
  size : Utf8.size path.text ≤ pathLimit

theorem Path.Fits.sized {path : Path} (h : path.Fits) : path.Sized := ⟨h.ne_nil, h.noNul, h.size⟩

theorem Path.Sized.above {folder : Location} {name : Text}
    (h : (Path.ofLocation (folder ++ [name])).Sized) : (Path.ofLocation folder).Sized := by
  have hbegins : (Path.ofLocation folder).text <+: (Path.ofLocation (folder ++ [name])).text :=
    (List.prefix_append_right_inj _).mpr (Text.join_prefix_snoc "/" folder name)
  exact ⟨List.cons_ne_nil _ _, fun hnul => h.noNul (hbegins.subset hnul),
    Nat.le_trans (Utf8.size_le_of_begins hbegins) h.size⟩

/-- If the path of an entry can be used, so can the path of its folder. -/
theorem Path.Fits.above {folder : Location} {name : Text}
    (h : (Path.ofLocation (folder ++ [name])).Fits) : (Path.ofLocation folder).Fits := by
  obtain ⟨hnil, hnul, hsize⟩ := h.sized.above
  exact ⟨hnil, hnul, hsize, fun part hpart => h.names part (List.mem_append_left _ hpart)⟩

namespace FileTree

variable {tree after : FileTree} {home start location folder : Location} {steps : List Text}
  {path : Path}

/-! ## Following paths -/

theorem follow_name {step : Text} (hstep : IsName step)
    (hfolder : tree.get? location = some .folder) (hsize : Utf8.size step ≤ nameLimit) :
    tree.follow location (step :: steps) = tree.follow (location ++ [step]) steps := by
  rw [follow, hfolder]
  dsimp only
  rw [if_neg (Nat.not_lt.mpr hsize), if_neg hstep.ne_up, if_neg hstep.ne_here]

theorem of_follow (hsteps : ∀ step ∈ steps, IsName step)
    (h : tree.follow start steps = .ok location) :
    location = start ++ steps ∧ (∀ step ∈ steps, Utf8.size step ≤ nameLimit) ∧
      (steps ≠ [] → tree.get? location.dropLast = some .folder) := by
  induction steps generalizing start with
  | nil =>
    obtain rfl : start = location := Except.ok.inj h
    exact ⟨(List.append_nil start).symm, fun _ hstep => (nomatch hstep), fun hne => absurd rfl hne⟩
  | cons step rest ih =>
    have hstep := hsteps step List.mem_cons_self
    rw [follow] at h
    split at h
    · cases h
    · cases h
    · rename_i hfolder
      split at h
      · cases h
      · rename_i hsize
        rw [if_neg hstep.ne_up, if_neg hstep.ne_here] at h
        obtain ⟨hlocation, hsizes, habove⟩ :=
          ih (fun part hpart => hsteps part (List.mem_cons_of_mem _ hpart)) h
        refine ⟨by simpa using hlocation, ?_, fun _ => ?_⟩
        · intro part hpart
          rcases List.mem_cons.mp hpart with rfl | hpart
          · exact Nat.not_lt.mp hsize
          · exact hsizes part hpart
        · by_cases hrest : rest = []
          · rw [hlocation, hrest, List.append_nil, List.dropLast_concat]
            exact hfolder
          · exact habove hrest

theorem follow_eq_ok (hwf : tree.WellFormed) (hsteps : ∀ step ∈ steps, IsName step)
    (hsizes : ∀ step ∈ steps, Utf8.size step ≤ nameLimit)
    (hsome : (tree.get? (start ++ steps)).isSome) :
    tree.follow start steps = .ok (start ++ steps) := by
  induction steps generalizing start with
  | nil => rw [follow, List.append_nil]
  | cons step rest ih =>
    have hfolder : tree.get? start = some .folder :=
      hwf.folder_above (List.cons_ne_nil step rest) hsome
    have happend : start ++ step :: rest = start ++ [step] ++ rest := by simp
    rw [follow_name (hsteps step List.mem_cons_self) hfolder (hsizes step List.mem_cons_self),
      happend]
    rw [happend] at hsome
    exact ih (fun part hpart => hsteps part (List.mem_cons_of_mem _ hpart))
      (fun part hpart => hsizes part (List.mem_cons_of_mem _ hpart)) hsome

theorem follow_ne_tooLong (hsteps : ∀ step ∈ steps, IsName step)
    (hsizes : ∀ step ∈ steps, Utf8.size step ≤ nameLimit) :
    tree.follow start steps ≠ .error .tooLong := by
  induction steps generalizing start with
  | nil => exact fun h => nomatch h
  | cons step rest ih =>
    have hstep := hsteps step List.mem_cons_self
    intro h
    rw [follow] at h
    split at h
    · cases h
    · cases h
    · rw [if_neg (Nat.not_lt.mpr (hsizes step List.mem_cons_self)), if_neg hstep.ne_up,
        if_neg hstep.ne_here] at h
      exact ih (fun part hpart => hsteps part (List.mem_cons_of_mem _ hpart))
        (fun part hpart => hsizes part (List.mem_cons_of_mem _ hpart)) h

theorem locate_of_sized (hsized : path.Sized) :
    tree.locate home path.route =
      tree.follow (if path.anchor = .relative then home else []) path.parts := by
  unfold locate Path.route
  dsimp only
  rw [if_neg hsized.ne_nil, if_neg hsized.noNul, if_neg (Nat.not_lt.mpr hsized.size),
    if_neg Bool.false_ne_true]

theorem locate_of_fits (hfits : path.Fits) :
    tree.locate home path.route =
      tree.follow (if path.anchor = .relative then home else []) path.parts :=
  locate_of_sized hfits.sized

/-- Where a path without `..` leads: to its own location, inside a folder. -/
theorem of_locate (hnames : ∀ part ∈ path.parts, IsName part)
    (h : tree.locate home path.route = .ok location) :
    path.Fits ∧ location = path.resolve home ∧
      (path.parts ≠ [] → tree.get? location.dropLast = some .folder) := by
  unfold locate Path.route at h
  dsimp only at h
  split at h
  · cases h
  · rename_i hnil
    split at h
    · cases h
    · rename_i hnul
      split at h
      · cases h
      · rename_i hsize
        rw [if_neg Bool.false_ne_true] at h
        obtain ⟨hlocation, hsizes, habove⟩ := of_follow hnames h
        refine ⟨⟨hnil, hnul, Nat.not_lt.mp hsize, hsizes⟩, ?_, habove⟩
        rw [Path.resolve_proper hnames]
        exact hlocation

theorem of_locate_ofLocation (hproper : location.Proper) {place : Location}
    (h : tree.locate home (Path.ofLocation location).route = .ok place) :
    (Path.ofLocation location).Fits ∧ place = location ∧
      (location ≠ [] → tree.get? location.dropLast = some .folder) := by
  have hnames : ∀ part ∈ (Path.ofLocation location).parts, IsName part := hproper
  obtain ⟨hfits, hplace, habove⟩ := of_locate hnames h
  rw [Path.resolve_ofLocation hproper] at hplace
  subst hplace
  exact ⟨hfits, rfl, habove⟩

theorem locate_eq_ok (hwf : tree.WellFormed) (hnames : ∀ part ∈ path.parts, IsName part)
    (hfits : path.Fits) (hsome : (tree.get? (path.resolve home)).isSome) :
    tree.locate home path.route = .ok (path.resolve home) := by
  rw [Path.resolve_proper hnames] at hsome ⊢
  rw [locate_of_fits hfits]
  exact follow_eq_ok hwf hnames hfits.names hsome

/-! ## Reading -/

/-- What a fitting path shows is the entry at its location. -/
theorem lookAt_of_fits (hwf : tree.WellFormed) (hnames : ∀ part ∈ path.parts, IsName part)
    (hfits : path.Fits) :
    tree.lookAt home path.route = .ok (tree.get? (path.resolve home)) := by
  unfold lookAt
  by_cases hsome : (tree.get? (path.resolve home)).isSome
  · rw [locate_eq_ok hwf hnames hfits hsome]
  · have hnone : tree.get? (path.resolve home) = none := by simpa using hsome
    split
    · rename_i location hlocation
      rw [(of_locate hnames hlocation).2.1]
    · rename_i hlong
      rw [locate_of_fits hfits] at hlong
      exact absurd hlong (follow_ne_tooLong hnames hfits.names)
    · rw [hnone]

theorem lookAt_eq_some_iff (hwf : tree.WellFormed) (hnames : ∀ part ∈ path.parts, IsName part)
    {entry : Entry} :
    tree.lookAt home path.route = .ok (some entry) ↔
      path.Fits ∧ tree.get? (path.resolve home) = some entry := by
  constructor
  · intro h
    unfold lookAt at h
    split at h
    · rename_i location hlocation
      obtain ⟨hfits, hresolve, -⟩ := of_locate hnames hlocation
      rw [hresolve] at h
      exact ⟨hfits, Except.ok.inj h⟩
    · cases h
    · cases h
  · rintro ⟨hfits, hentry⟩
    rw [lookAt_of_fits hwf hnames hfits, hentry]

theorem readBytes_eq_ok_iff (hwf : tree.WellFormed) (hnames : ∀ part ∈ path.parts, IsName part)
    {content : ByteArray} :
    tree.readBytes home path.route = .ok content ↔
      path.Fits ∧ tree.get? (path.resolve home) = some (.file content) := by
  constructor
  · intro h
    unfold readBytes at h
    split at h
    · cases h
    · rename_i location hlocation
      obtain ⟨hfits, hresolve, -⟩ := of_locate hnames hlocation
      split at h
      · cases h
      · cases h
      · rename_i content' hfile
        rw [← hresolve, hfile, Except.ok.inj h]
        exact ⟨hfits, rfl⟩
  · rintro ⟨hfits, hfile⟩
    have hsome : (tree.get? (path.resolve home)).isSome := by rw [hfile]; rfl
    unfold readBytes
    rw [locate_eq_ok hwf hnames hfits hsome]
    dsimp only
    rw [hfile]

/-- Reading a text gives what the bytes at the location hold, with normalised line breaks. -/
theorem readText_eq_ok_iff (hwf : tree.WellFormed) (hnames : ∀ part ∈ path.parts, IsName part)
    {text : Text} :
    tree.readText home path.route = .ok text ↔
      path.Fits ∧ ∃ content decoded, tree.get? (path.resolve home) = some (.file content) ∧
        Utf8.decode content = .ok decoded ∧ text = decoded.normalizeBreaks := by
  unfold readText
  constructor
  · intro h
    split at h
    · cases h
    · rename_i content hcontent
      obtain ⟨hfits, hfile⟩ := (readBytes_eq_ok_iff hwf hnames).mp hcontent
      split at h
      · cases h
      · rename_i decoded hdecoded
        exact ⟨hfits, content, decoded, hfile, hdecoded, (Except.ok.inj h).symm⟩
  · rintro ⟨hfits, content, decoded, hfile, hdecoded, rfl⟩
    rw [(readBytes_eq_ok_iff hwf hnames).mpr ⟨hfits, hfile⟩]
    dsimp only
    rw [hdecoded]

/-- Reading depends on the entry at the location only. -/
theorem readText_congr (hwf : tree.WellFormed) (hafter : after.WellFormed)
    (hnames : ∀ part ∈ path.parts, IsName part) {text : Text}
    (hsame : after.get? (path.resolve home) = tree.get? (path.resolve home))
    (h : after.readText home path.route = .ok text) :
    tree.readText home path.route = .ok text := by
  rw [readText_eq_ok_iff hafter hnames, hsame] at h
  exact (readText_eq_ok_iff hwf hnames).mpr h

theorem exists_of_readText {route : Route} {text : Text} (h : tree.readText home route = .ok text) :
    ∃ entry, tree.lookAt home route = .ok (some entry) := by
  unfold readText readBytes at h
  unfold lookAt
  split at h
  · cases h
  · rename_i content hcontent
    split at hcontent
    · cases hcontent
    · rename_i location hlocation
      rw [hlocation]
      dsimp only
      split at hcontent
      · cases hcontent
      · cases hcontent
      · rename_i found hfound
        exact ⟨.file found, congrArg Except.ok hfound⟩

theorem decode_encode (text : Text) : Utf8.decode (Utf8.encode text) = .ok text := by
  unfold Utf8.decode Utf8.encode String.fromUTF8? String.toUTF8
  rw [dif_pos (String.ofList text).isValidUTF8]
  exact congrArg Except.ok String.toList_ofList

theorem encode_injective {text other : Text} (h : Utf8.encode text = Utf8.encode other) :
    text = other := by
  have hdecoded := decode_encode text
  rw [h, decode_encode] at hdecoded
  exact (Except.ok.inj hdecoded).symm

theorem of_readText_ofLocation (hwf : tree.WellFormed) (hproper : location.Proper) {text : Text}
    (h : tree.readText home (Path.ofLocation location).route = .ok text) :
    ∃ content decoded, tree.get? location = some (.file content) ∧
      Utf8.decode content = .ok decoded ∧ text = decoded.normalizeBreaks := by
  have hnames : ∀ part ∈ (Path.ofLocation location).parts, IsName part := hproper
  rw [readText_eq_ok_iff hwf hnames, Path.resolve_ofLocation hproper] at h
  exact h.2

/-- A text that has been written is read back as it is if it holds no carriage return. -/
theorem readText_written (hwf : tree.WellFormed) (hproper : location.Proper)
    {text written : Text} (hreturn : '\r' ∉ text)
    (hfile : tree.get? location = some (.file (Utf8.encode text)))
    (h : tree.readText home (Path.ofLocation location).route = .ok written) : written = text := by
  obtain ⟨content, decoded, hcontent, hdecoded, rfl⟩ := of_readText_ofLocation hwf hproper h
  rw [hfile] at hcontent
  obtain rfl := Entry.file.inj (Option.some.inj hcontent)
  rw [decode_encode] at hdecoded
  obtain rfl := Except.ok.inj hdecoded
  exact Text.normalizeBreaks_of_not_mem hreturn

/-! ## Writing -/

/-- Writing at a path puts a file where the path leads, unless there is a folder. -/
theorem writeBytes_eq_ok_iff {content : ByteArray} :
    tree.writeBytes home path.route content = .ok after ↔
      ∃ location, tree.locate home path.route = .ok location ∧
        tree.get? location ≠ some .folder ∧ after = tree.insert location (.file content) := by
  unfold writeBytes Path.route
  simp only [Bool.false_eq_true, if_false, Bool.false_or]
  cases tree.locate home ⟨path.text, path.anchor, path.parts, false⟩ with
  | error obstacle => simp
  | ok location =>
    simp only [Except.ok.injEq, exists_eq_left']
    split
    · rename_i hfolder
      simp [isFolder_iff.mp hfolder]
    · rename_i hfolder
      rw [Except.ok.injEq, and_iff_right fun hget => hfolder (isFolder_iff.mpr hget)]
      exact eq_comm

/-- Writing at a path without `..` puts a file at its own location. -/
theorem of_writeBytes (hnames : ∀ part ∈ path.parts, IsName part)
    {content : ByteArray} (hparts : path.parts ≠ [])
    (h : tree.writeBytes home path.route content = .ok after) :
    path.Fits ∧ tree.get? (path.resolve home) ≠ some .folder ∧
      tree.get? (path.resolve home).dropLast = some .folder ∧
      after = tree.insert (path.resolve home) (.file content) := by
  obtain ⟨location, hlocation, hfolder, rfl⟩ := writeBytes_eq_ok_iff.mp h
  obtain ⟨hfits, rfl, habove⟩ := of_locate hnames hlocation
  exact ⟨hfits, hfolder, habove hparts, rfl⟩

/-- A way goes through folders only, so it leads to the same place as long as these are kept. -/
theorem follow_of_folders
    (hkept : ∀ place, tree.get? place = some .folder → after.get? place = some .folder)
    (h : tree.follow start steps = .ok location) : after.follow start steps = .ok location := by
  induction steps generalizing start with
  | nil => exact h
  | cons step rest ih =>
    rw [follow] at h
    split at h
    · cases h
    · cases h
    · rename_i hstart
      rw [follow, hkept start hstart]
      dsimp only
      split_ifs at h ⊢ with hsize hup hhere
      · exact ih h
      · exact ih h
      · exact ih h

theorem locate_of_folders {route : Route}
    (hkept : ∀ place, tree.get? place = some .folder → after.get? place = some .folder)
    (h : tree.locate home route = .ok location) : after.locate home route = .ok location := by
  unfold locate at h ⊢
  split_ifs at h ⊢ <;> exact follow_of_folders hkept h

/-- A way does not lead elsewhere once a file is put at its end. -/
theorem locate_insert {route : Route} {entry : Entry} (hfolder : tree.get? location ≠ some .folder)
    (h : tree.locate home route = .ok location) :
    (tree.insert location entry).locate home route = .ok location := by
  have hroot : location ≠ [] := by
    rintro rfl
    exact hfolder (get?_root tree)
  refine locate_of_folders (fun place hplace => ?_) h
  have hne : place ≠ location := by
    rintro rfl
    exact hfolder hplace
  rw [get?_insert tree entry hroot, if_neg hne, hplace]

/-- What is there is read as before if it has not been written. -/
theorem readText_of_grows {files folders : Location → Prop} {route : Route} {entry : Entry}
    (hgrows : Grows files folders tree after)
    (hfound : tree.lookAt home route = .ok (some entry))
    (hfile : ∀ place, tree.locate home route = .ok place → ¬ files place) :
    after.readText home route = tree.readText home route := by
  cases hlocate : tree.locate home route with
  | error obstacle =>
    unfold lookAt at hfound
    rw [hlocate] at hfound
    cases obstacle <;> cases hfound
  | ok place =>
    unfold lookAt at hfound
    rw [hlocate] at hfound
    have hentry : tree.get? place = some entry := Except.ok.inj hfound
    have hkept : after.get? place = some entry := by
      cases entry with
      | folder => exact hgrows.folder_kept hentry
      | file content =>
        have hsame := hgrows.file?_eq (hfile place hlocate)
        rw [file?_eq_some_iff.mpr hentry] at hsame
        exact file?_eq_some_iff.mp hsame
    unfold readText readBytes
    rw [hlocate, locate_of_folders (fun _ h => hgrows.folder_kept h) hlocate]
    dsimp only
    rw [hkept, hentry]

/-- Any path at which a text has been written gives it back if it holds no carriage return. -/
theorem readText_of_writeBytes {text : Text} (hreturn : '\r' ∉ text)
    (h : tree.writeBytes home path.route (Utf8.encode text) = .ok after) :
    after.readText home path.route = .ok text := by
  obtain ⟨location, hlocation, hfolder, rfl⟩ := writeBytes_eq_ok_iff.mp h
  have hroot : location ≠ [] := by
    rintro rfl
    exact hfolder (get?_root tree)
  unfold readText readBytes
  rw [locate_insert hfolder hlocation]
  dsimp only
  rw [get?_insert tree _ hroot, if_pos rfl]
  dsimp only
  rw [decode_encode]
  exact congrArg Except.ok (Text.normalizeBreaks_of_not_mem hreturn)

/-- The tree after folders have been made above a location and at it: nothing else has changed. -/
structure Made (location : Location) (before after : FileTree) : Prop where
  grows : Grows (fun _ => False) (· <+: location) before after
  wellFormed : after.WellFormed

theorem Made.refl (hwf : tree.WellFormed) : Made location tree tree := ⟨.refl tree, hwf⟩

theorem Made.trans {middle : FileTree} (hfirst : Made location tree middle)
    (hsecond : Made location middle after) : Made location tree after :=
  ⟨hfirst.grows.trans hsecond.grows, hsecond.wellFormed⟩

/-- What is above the location may change. -/
theorem Made.of_above (h : Made location.dropLast tree after) : Made location tree after :=
  ⟨h.grows.mono (fun _ hfile => hfile) fun _ habove =>
    habove.trans <| List.dropLast_prefix location, h.wellFormed⟩

theorem made_of_makeFolder (hwf : tree.WellFormed) (hproper : location.Proper)
    (h : tree.makeFolder home (Path.ofLocation location) = .ok after) :
    Made location tree after ∧ after.get? location = some .folder ∧
      (Path.ofLocation location).Fits := by
  unfold makeFolder at h
  split at h
  · cases h
  · rename_i place hplace
    obtain ⟨hfits, rfl, habove⟩ := of_locate_ofLocation hproper hplace
    split at h
    · cases h
    · rename_i hsome
      have hnone : tree.get? place = none := by simpa using hsome
      obtain rfl := Except.ok.inj h
      rcases List.eq_nil_or_concat' place with rfl | ⟨above, name, rfl⟩
      · rw [get?_root] at hnone
        cases hnone
      · have hne : above ++ [name] ≠ [] := by simp
        have hfolder := habove hne
        rw [List.dropLast_concat] at hfolder
        refine ⟨⟨.insert_folder hne (List.prefix_refl _) hnone, ?_⟩, ?_, hfits⟩
        · exact hwf.insert (hproper name (by simp)) hfolder (.inl rfl)
        · rw [get?_insert tree _ hne, if_pos rfl]

theorem folder_of_isFolderAt (hproper : location.Proper)
    (h : tree.isFolderAt home (Path.ofLocation location).route = true) :
    tree.get? location = some .folder ∧ (Path.ofLocation location).Fits := by
  unfold isFolderAt at h
  split at h
  · rename_i place hplace
    obtain ⟨hfits, rfl, -⟩ := of_locate_ofLocation hproper hplace
    exact ⟨isFolder_iff.mp h, hfits⟩
  · cases h

/-- Giving up on an obstacle, unless the folder is there already. -/
theorem made_of_obstacle (hwf : tree.WellFormed) (hproper : location.Proper) {obstacle : Obstacle}
    {error : FileError} {result : Except FileError Unit}
    (h : (if obstacle ≠ .missing && tree.isFolderAt home (Path.ofLocation location).route
        then (tree, .ok ()) else (tree, .error error)) = (after, result)) :
    Made location tree after ∧ (result = .ok () →
      after.get? location = some .folder ∧ (Path.ofLocation location).Fits) := by
  split at h
  · rename_i hfolder
    obtain ⟨rfl, rfl⟩ := Prod.mk.inj h
    rw [Bool.and_eq_true] at hfolder
    exact ⟨.refl hwf, fun _ => folder_of_isFolderAt hproper hfolder.2⟩
  · obtain ⟨rfl, rfl⟩ := Prod.mk.inj h
    exact ⟨.refl hwf, fun hok => nomatch hok⟩

/-- Nothing changes but what is above the location or is it, even if making folders goes wrong; if
it does not, a folder is there. -/
theorem made_of_makeFoldersUpTo (hwf : tree.WellFormed) (hproper : location.Proper) {height : Nat}
    {result : Except FileError Unit}
    (h : makeFoldersUpTo home height (Path.ofLocation location) tree = (after, result)) :
    Made location tree after ∧ (result = .ok () →
      after.get? location = some .folder ∧ (Path.ofLocation location).Fits) := by
  induction height generalizing location after result with
  | zero =>
    rw [makeFoldersUpTo] at h
    split at h
    · rename_i made hmade
      obtain ⟨rfl, rfl⟩ := Prod.mk.inj h
      obtain ⟨hmade, hfolder⟩ := made_of_makeFolder hwf hproper hmade
      exact ⟨hmade, fun _ => hfolder⟩
    · exact made_of_obstacle hwf hproper h
  | succ height ih =>
    rw [makeFoldersUpTo] at h
    split at h
    · rename_i made hmade
      obtain ⟨rfl, rfl⟩ := Prod.mk.inj h
      obtain ⟨hmade, hfolder⟩ := made_of_makeFolder hwf hproper hmade
      exact ⟨hmade, fun _ => hfolder⟩
    · split at h
      · rename_i lower hheight _
        obtain rfl : height = lower := Nat.succ.inj hheight
        rw [Path.parent_ofLocation] at h
        split at h
        · rename_i above error hrec
          obtain ⟨rfl, rfl⟩ := Prod.mk.inj h
          exact ⟨(ih (hproper.dropLast) hrec).1.of_above, fun hok => nomatch hok⟩
        · rename_i above hrec
          have habove := (ih (hproper.dropLast) hrec).1.of_above
          split at h
          · rename_i made hmade
            obtain ⟨rfl, rfl⟩ := Prod.mk.inj h
            obtain ⟨hmade, hfolder⟩ := made_of_makeFolder habove.wellFormed hproper hmade
            exact ⟨habove.trans hmade, fun _ => hfolder⟩
          · obtain ⟨hmade, hfolder⟩ := made_of_obstacle habove.wellFormed hproper h
            exact ⟨habove.trans hmade, hfolder⟩
      · exact made_of_obstacle hwf hproper h

/-- Making folders leaves everything else as it is; if it does not go wrong, a folder is there. -/
theorem made_of_makeFolders (hwf : tree.WellFormed) (hproper : location.Proper) (home : Location) :
    Made location tree (tree.makeFolders home (Path.ofLocation location)).1 ∧
      ((tree.makeFolders home (Path.ofLocation location)).2 = .ok () →
        (tree.makeFolders home (Path.ofLocation location)).1.get? location = some .folder ∧
          (Path.ofLocation location).Fits) :=
  made_of_makeFoldersUpTo hwf hproper rfl

/-! ## Listing -/

/-- The names in a folder that have an ending, in increasing order. -/
def namesWith (tree : FileTree) (folder : Location) (ending : Text) : List Text :=
  (tree.children folder).filter fun name => ending.isSuffixOf name

theorem mem_namesWith {ending name : Text} :
    name ∈ tree.namesWith folder ending ↔
      (tree.get? (folder ++ [name])).isSome ∧ ending <:+ name := by
  rw [namesWith, List.mem_filter, mem_children, List.isSuffixOf_iff_suffix]

theorem pairwise_namesWith (tree : FileTree) (folder : Location) (ending : Text) :
    (tree.namesWith folder ending).Pairwise (· < ·) :=
  (Text.pairwise_sortedSet _).filter _

/-- The entries listed are those of the folder with the ending, or none if the path cannot be
used. -/
theorem of_list (hproper : folder.Proper) {ending : Text} {paths : List Path}
    (h : tree.list home (Path.ofLocation folder) ending = .ok paths) :
    paths = [] ∨ paths =
      (tree.namesWith folder ending).map fun name => Path.ofLocation (folder ++ [name]) := by
  unfold list at h
  split at h
  · cases h
  · exact .inl (Except.ok.inj h).symm
  · rename_i place hplace
    obtain ⟨-, rfl, -⟩ := of_locate_ofLocation hproper hplace
    split at h
    · exact .inr (Except.ok.inj h).symm
    · exact .inl (Except.ok.inj h).symm

/-- A folder that is there is listed. -/
theorem list_eq_ok (hwf : tree.WellFormed) (hproper : folder.Proper)
    (hfits : (Path.ofLocation folder).Fits) (hfolder : tree.get? folder = some .folder)
    (ending : Text) :
    tree.list home (Path.ofLocation folder) ending =
      .ok ((tree.namesWith folder ending).map fun name => Path.ofLocation (folder ++ [name])) := by
  have hnames : ∀ part ∈ (Path.ofLocation folder).parts, IsName part := hproper
  have hlocate : tree.locate home (Path.ofLocation folder).route = .ok folder := by
    have hresolve : (Path.ofLocation folder).resolve home = folder :=
      Path.resolve_ofLocation hproper
    rw [locate_eq_ok hwf hnames hfits (by rw [hresolve, hfolder]; rfl), hresolve]
  unfold list
  rw [hlocate]
  dsimp only
  rw [if_pos (isFolder_iff.mpr hfolder)]
  rfl

end FileTree

end Folio
