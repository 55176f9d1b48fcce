import Folio.Proofs.Build.Inputs
import Folio.Proofs.Build.Producer
import Folio.Proofs.Files.View
import Folio.Proofs.Page.Sections

/-!
# Steps that read, compute and publish

What a step of a build reads is a function of the tree, with a failure for everything that can be
wrong with it. `enhanceInto_eq` and `renderPage_eq` write the steps of the two stages as a sequence
of such readers and of the step that publishes a text. What a reader finds is the same in trees with
the same view.
-/

namespace Folio

namespace Run

variable {α : Type} {workspace : Workspace}

theorem ext {run other : Run α} (h : ∀ workspace, exec run workspace = exec other workspace) :
    run = other :=
  funext h

/-- Read something from the tree. -/
def read (reader : FileTree → Location → Except Failure α) : Run α := do
  let workspace ← get
  ofExcept id (reader workspace.tree workspace.home)

theorem exec_read (reader : FileTree → Location → Except Failure α) :
    exec (read reader) workspace = (reader workspace.tree workspace.home, workspace) := by
  unfold read
  rw [exec_get_bind, exec_ofExcept]
  cases reader workspace.tree workspace.home <;> rfl

end Run

namespace Build

open FileTree Run Directive

variable {tree other : FileTree} {home : Location} {source : Path}

/-! ## The readers -/

/-- Is the Markdown file there? -/
def foundAt (source : Path) (tree : FileTree) (home : Location) : Except Failure Unit :=
  match tree.lookAt home source.route with
  | .error error => .error (.file error)
  | .ok none => .error (.markdownMissing source.text)
  | .ok (some _) => .ok ()

/-- The enhanced text of a source, with the failures that are reported. -/
def enhancedAt (source : Path) (mode : ErrorMode) (tree : FileTree) (home : Location) :
    Except Failure Expansion := do
  let text ← (tree.readText home source.route).mapError .ofRead
  let definitions ← definitionsAt tree home definitionsPath
  (enhance definitions (some source.text) mode text).mapError .directive

/-- The page of a Markdown file. -/
def pageAt (convert : Text → Text) (shell : Shell) (source : Path) (tree : FileTree)
    (home : Location) : Except Failure Text := do
  let text ← (tree.readText home source.route).mapError .ofRead
  shell.wrap tree home (Page.title source.stem text) (convert text)

/-- The Markdown files of a folder. -/
def markdownAt (folder : Path) (tree : FileTree) (home : Location) : Except Failure (List Path) :=
  (tree.list home folder ".md").mapError .file

theorem foundAt_eq_ok_iff :
    foundAt source tree home = .ok () ↔
      ∃ entry, tree.lookAt home source.route = .ok (some entry) := by
  unfold foundAt
  rcases tree.lookAt home source.route with error | _ | entry <;> simp

theorem enhancedAt_eq_ok_iff {mode : ErrorMode} {expansion : Expansion} :
    enhancedAt source mode tree home = .ok expansion ↔
      ∃ text definitions, tree.readText home source.route = .ok text ∧
        definitionsAt tree home definitionsPath = .ok definitions ∧
        enhance definitions (some source.text) mode text = .ok expansion := by
  unfold enhancedAt
  simp only [bind_eq_ok_iff, mapError_eq_ok_iff, exists_and_left]

theorem exists_of_enhance {definitions : Definitions} {source : Option Text} {mode : ErrorMode}
    {text : Text} {enhanced : Expansion} (h : enhance definitions source mode text = .ok enhanced) :
    ∃ expansion, expand definitions.directives source mode text = .ok expansion ∧
      enhanced.text = Page.addSections (Page.substitute definitions.tokens expansion.text) := by
  unfold enhance at h
  cases hexpand : expand definitions.directives source mode text with
  | error error =>
    rw [hexpand] at h
    cases h
  | ok expansion =>
    rw [hexpand] at h
    obtain rfl := Except.ok.inj h
    exact ⟨expansion, rfl, rfl⟩

/-- An enhanced text holds no carriage return. -/
theorem not_mem_of_enhance {definitions : Definitions} {source : Option Text} {mode : ErrorMode}
    {text : Text} {enhanced : Expansion} (h : enhance definitions source mode text = .ok enhanced) :
    '\r' ∉ enhanced.text := by
  obtain ⟨_, -, htext⟩ := exists_of_enhance h
  rw [htext]
  exact Page.not_mem_addSections _

theorem not_mem_enhanced {mode : ErrorMode} {expansion : Expansion}
    (h : enhancedAt source mode tree home = .ok expansion) :
    '\r' ∉ expansion.text := by
  obtain ⟨text, definitions, -, -, henhance⟩ := enhancedAt_eq_ok_iff.mp h
  exact not_mem_of_enhance henhance

theorem pageAt_eq_ok_iff {convert : Text → Text} {shell : Shell} {page : Text} :
    pageAt convert shell source tree home = .ok page ↔
      ∃ text, tree.readText home source.route = .ok text ∧
        shell.wrap tree home (Page.title source.stem text) (convert text) = .ok page := by
  unfold pageAt
  simp only [bind_eq_ok_iff, mapError_eq_ok_iff]

/-! ## Trees with the same view -/

section View

variable (h : SameView tree other)
include h

theorem foundAt_of_sameView (source : Path) :
    foundAt source other home = foundAt source tree home := by
  unfold foundAt
  rw [h.lookAt]

theorem definitionsAt_of_sameView (path : Path) :
    definitionsAt other home path = definitionsAt tree home path := by
  have hincluded : includedTemplate other home path.parent =
      includedTemplate tree home path.parent := by
    funext written
    unfold includedTemplate
    simp only [h.lookAt, h.readText]
  unfold definitionsAt
  rw [h.lookAt, h.readText, hincluded]

theorem enhancedAt_of_sameView (source : Path) (mode : ErrorMode) :
    enhancedAt source mode other home = enhancedAt source mode tree home := by
  unfold enhancedAt
  rw [h.readText, definitionsAt_of_sameView h]

theorem wrap_of_sameView (shell : Shell) (title body : Text) :
    shell.wrap other home title body = shell.wrap tree home title body := by
  unfold Shell.wrap templateAt
  rw [h.lookAt, h.readText]

theorem pageAt_of_sameView (convert : Text → Text) (shell : Shell) (source : Path) :
    pageAt convert shell source other home = pageAt convert shell source tree home := by
  unfold pageAt
  rw [h.readText]
  simp only [wrap_of_sameView h]

theorem markdownAt_of_sameView (folder : Path) :
    markdownAt folder other home = markdownAt folder tree home := by
  unfold markdownAt
  rw [h.list]

end View

/-! ## The steps -/

theorem listMarkdown_eq (folder : Path) : listMarkdown folder = read (markdownAt folder) := by
  refine ext fun workspace => ?_
  rw [exec_listMarkdown, exec_read]
  rfl

section Sequences

variable {α : Type}

/-- Insisting that a file is there is a reader. -/
theorem pathExists_bind (source : Path) (next : Run α) :
    (pathExists source >>= fun found =>
      if found = true then next
      else throw (Failure.markdownMissing source.text) >>= fun _ : PUnit => next) =
      read (foundAt source) >>= fun _ => next := by
  refine ext fun workspace => ?_
  rw [exec_bind, exec_pathExists, exec_bind, exec_read]
  unfold foundAt
  rcases workspace.tree.lookAt workspace.home source.route with error | _ | entry
  · rfl
  · rfl
  · rfl

theorem enhancedAt_bind (source : Path) (mode : ErrorMode) (next : Expansion → Run α) :
    (do
      let text ← readText source
      let workspace ← get
      let definitions ← ofExcept id (definitionsAt workspace.tree workspace.home definitionsPath)
      let expansion ← ofExcept Failure.directive
        (enhance definitions (some source.text) mode text)
      next expansion) = read (enhancedAt source mode) >>= next := by
  refine ext fun workspace => ?_
  rw [exec_bind, exec_readText, exec_bind, exec_read]
  unfold enhancedAt
  cases workspace.tree.readText workspace.home source.route with
  | error error => rfl
  | ok text =>
    dsimp only [Except.mapError]
    rw [exec_get_bind, exec_bind, exec_ofExcept]
    cases definitionsAt workspace.tree workspace.home definitionsPath with
    | error failure => rfl
    | ok definitions =>
      dsimp only [Except.mapError]
      rw [exec_bind, exec_ofExcept]
      simp only [bind, Except.bind]
      cases enhance definitions (some source.text) mode text <;> rfl

theorem pageAt_bind (convert : Text → Text) (shell : Shell) (source : Path) (next : Text → Run α) :
    (do
      let text ← readText source
      let workspace ← get
      let page ← ofExcept id
        (shell.wrap workspace.tree workspace.home (Page.title source.stem text) (convert text))
      next page) = read (pageAt convert shell source) >>= next := by
  refine ext fun workspace => ?_
  rw [exec_bind, exec_readText, exec_bind, exec_read]
  unfold pageAt
  cases workspace.tree.readText workspace.home source.route with
  | error error => rfl
  | ok text =>
    dsimp only [Except.mapError]
    rw [exec_get_bind, exec_bind, exec_ofExcept]
    simp only [bind, Except.bind]
    cases shell.wrap workspace.tree workspace.home (Page.title source.stem text) (convert text) <;>
      rfl

end Sequences

theorem enhanceFile_eq (source target : Path) (mode : ErrorMode) :
    enhanceFile source target mode = do
      read (foundAt source)
      let expansion ← read (enhancedAt source mode)
      reportAll (expansion.errors.map errorReport)
      publish target expansion.text
      return expansion.errors.length := by
  unfold enhanceFile publish
  dsimp only
  rw [pathExists_bind, enhancedAt_bind]
  simp only [bind_assoc]

theorem enhanceInto_eq (folder source : Path) (mode : ErrorMode) :
    enhanceInto folder source mode = do
      report {
        level := .info, label := enhanceLabel
        message := source.text ++ " -> " ++ (folder.child source.name).text }
      read (foundAt source)
      let expansion ← read (enhancedAt source mode)
      reportAll (expansion.errors.map errorReport)
      publish (folder.child source.name) expansion.text
      return expansion.errors.length := by
  unfold enhanceInto
  dsimp only
  rw [enhanceFile_eq]

theorem renderPage_eq (convert : Text → Text) (shell : Shell) (folder source : Path) :
    renderPage convert shell folder source = do
      read (foundAt source)
      report {
        level := .info
        message := "[build] " ++ source.text ++ " -> " ++
          (folder.child (source.stem ++ ".html")).text }
      let page ← read (pageAt convert shell source)
      publish (folder.child (source.stem ++ ".html")) page
      return folder.child (source.stem ++ ".html") := by
  unfold renderPage publish
  dsimp only
  rw [pathExists_bind, pageAt_bind]
  simp only [bind_assoc]

theorem enhanceOne_eq (sourceDir folder : Path) (name : Text) (mode : ErrorMode) :
    enhanceOne sourceDir folder name mode = (do
      read (foundAt (sourceDir.child (name ++ ".md")))
      makeFolders folder
      enhanceInto folder (sourceDir.child (name ++ ".md")) mode) :=
  pathExists_bind _ _

end Build

end Folio
