import Folio.Build.Enhance
import Folio.Build.Render
import Folio.Proofs.Directive.Declared
import Folio.Proofs.Directive.DefinitionText
import Folio.Proofs.Directive.Includes
import Folio.Proofs.Files.Access

/-!
# What a build reads besides its sources

The definitions with the files that they include, and the template. As long as these files are the
same, they are read with the same result (`definitionsAt_congr`, `templateAt_congr`).

Definitions that are written to a file are read back from it (`definitionsAt_written`).
-/

namespace Folio.Build

open FileTree Directive

variable {tree after : FileTree} {home : Location} {path folder : Path} {text written : Text}

theorem templateAt_eq_ok_iff :
    templateAt tree home path = .ok text ↔ tree.readText home path.route = .ok text := by
  unfold templateAt
  constructor
  · intro h
    split at h
    · cases h
    · cases h
    · exact eq_ok_of_mapError h
  · intro h
    obtain ⟨entry, hentry⟩ := exists_of_readText h
    rw [hentry, h]
    rfl

theorem templateAt_congr (hwf : tree.WellFormed) (hafter : after.WellFormed) (hpath : path.Settled)
    (hsame : after.get? path.parts = tree.get? path.parts)
    (h : templateAt after home path = .ok text) : templateAt tree home path = .ok text := by
  rw [templateAt_eq_ok_iff] at h ⊢
  refine readText_congr hwf hafter hpath.proper ?_ h
  rw [hpath.resolve]
  exact hsame

theorem eq_of_requireValue {key value found : Text}
    (h : requireValue key (some value) = .ok found) : found = value := by
  unfold requireValue at h
  dsimp only at h
  split at h
  · cases h
  · exact (Except.ok.inj h).symm

/-- A page is a document set into the template. -/
theorem exists_of_wrap {shell : Shell} {title body page css devJs : Text}
    (hcss : shell.css = some css) (hdevJs : shell.devJs = some devJs)
    (h : shell.wrap tree home title body = .ok page) :
    ∃ template, templateAt tree home shell.template = .ok template ∧
      page = Page.Document.render { title, css, devJs, body } template := by
  unfold Shell.wrap at h
  rw [hcss, hdevJs] at h
  obtain ⟨template, htemplate, hstyled⟩ := bind_eq_ok_iff.mp h
  obtain ⟨foundCss, hfoundCss, hscripted⟩ := bind_eq_ok_iff.mp hstyled
  obtain ⟨foundJs, hfoundJs, hrendered⟩ := bind_eq_ok_iff.mp hscripted
  obtain rfl := eq_of_requireValue (eq_ok_of_mapError hfoundCss)
  obtain rfl := eq_of_requireValue (eq_ok_of_mapError hfoundJs)
  exact ⟨template, htemplate, (Except.ok.inj hrendered).symm⟩

theorem includedTemplate_eq_ok_iff :
    includedTemplate tree home folder written = .ok text ↔
      ∃ path, Path.settle home folder written = .ok path ∧
        tree.readText home path.route = .ok text := by
  unfold includedTemplate
  constructor
  · intro h
    split at h
    · cases h
    · rename_i path hpath
      refine ⟨path, hpath, ?_⟩
      split at h
      · cases h
      · cases h
      · exact eq_ok_of_mapError h
  · rintro ⟨path, hpath, htext⟩
    obtain ⟨entry, hentry⟩ := exists_of_readText htext
    rw [hpath]
    dsimp only
    rw [hentry, htext]
    rfl

/-- What is wrong with an included file has to do with reading that file. -/
theorem exists_of_includedTemplate_unreadable {failure : Failure}
    (h : includedTemplate tree home folder written = .error (.unreadable failure)) :
    ∃ error, failure = .ofRead error := by
  unfold includedTemplate at h
  split at h
  · cases h
    exact ⟨.file _, rfl⟩
  · split at h
    · cases h
      exact ⟨.file _, rfl⟩
    · cases h
    · generalize tree.readText home _ = read at h
      cases read with
      | ok text => cases h
      | error error =>
        cases h
        exact ⟨error, rfl⟩

/-- There are definitions if there is no file, or if there is one that can be read. -/
theorem definitionsAt_eq_ok_iff {definitions : Definitions} :
    definitionsAt tree home path = .ok definitions ↔
      (tree.lookAt home path.route = .ok none ∧ definitions = {}) ∨
      ∃ text, tree.readText home path.route = .ok text ∧
        Definitions.parse (includedTemplate tree home path.parent) path.text text =
          .ok definitions := by
  unfold definitionsAt
  constructor
  · intro h
    split at h
    · cases h
    · rename_i hnone
      exact .inl ⟨hnone, (Except.ok.inj h).symm⟩
    · split at h
      · cases h
      · rename_i text htext
        refine .inr ⟨text, htext, ?_⟩
        split at h
        · rename_i found hfound
          rw [hfound, Except.ok.inj h]
        · cases h
        · cases h
  · rintro (⟨hnone, rfl⟩ | ⟨text, htext, hparse⟩)
    · rw [hnone]
    · obtain ⟨entry, hentry⟩ := exists_of_readText htext
      rw [hentry, htext]
      dsimp only
      rw [hparse]

theorem declared_of_definitionsAt {definitions : Definitions}
    (h : definitionsAt tree home path = .ok definitions) : definitions.AllDeclared := by
  rcases definitionsAt_eq_ok_iff.mp h with ⟨-, rfl⟩ | ⟨text, -, hparse⟩
  · exact ⟨fun definition hmem => absurd hmem List.not_mem_nil, List.nodup_nil, rfl⟩
  · exact declared_of_parse hparse

theorem namesSingleLine_of_definitionsAt {definitions : Definitions}
    (h : definitionsAt tree home path = .ok definitions) :
    ∀ definition ∈ definitions.directives, definition.NamesSingleLine :=
  fun definition hmem => ((declared_of_definitionsAt h).declared definition hmem).namesSingleLine

/-- The location of a file that the definitions include. -/
def includedAt (home : Location) (written : Text) : Location :=
  (definitionsPath.parent.child written).resolve home

theorem definitionsPath_names : ∀ part ∈ definitionsPath.parts, IsName part := by decide

theorem definitionsPath_fits : definitionsPath.Fits := ⟨by decide, by decide, by decide, by decide⟩

theorem definitionsAt_congr (hwf : tree.WellFormed) (hafter : after.WellFormed)
    (hhome : home.Proper)
    (hsame : after.get? (definitionsPath.resolve home) = tree.get? (definitionsPath.resolve home))
    (hincluded : ∀ text, tree.readText home definitionsPath.route = .ok text →
      ∀ written ∈ Definitions.includes text,
        after.get? (includedAt home written) = tree.get? (includedAt home written))
    {definitions : Definitions} (h : definitionsAt after home definitionsPath = .ok definitions) :
    definitionsAt tree home definitionsPath = .ok definitions := by
  rw [definitionsAt_eq_ok_iff] at h ⊢
  rcases h with ⟨hnone, rfl⟩ | ⟨text, htext, hparse⟩
  · rw [lookAt_of_fits hafter definitionsPath_names definitionsPath_fits, hsame] at hnone
    rw [lookAt_of_fits hwf definitionsPath_names definitionsPath_fits]
    exact .inl ⟨hnone, rfl⟩
  · have htext' := readText_congr hwf hafter definitionsPath_names hsame htext
    refine .inr ⟨text, htext', parse_congr (fun written hwritten template htemplate => ?_) hparse⟩
    rw [includedTemplate_eq_ok_iff] at htemplate ⊢
    obtain ⟨path, hpath, htemplate⟩ := htemplate
    have hsteps : ∀ part ∈ definitionsPath.parent.parts, Path.IsStep part :=
      fun part hpart => .inr (definitionsPath_names part (List.dropLast_subset _ hpart))
    obtain ⟨hsettled, hparts⟩ := Path.settled_of_settle hhome hsteps hpath
    refine ⟨path, hpath, readText_congr hwf hafter hsettled.proper ?_ htemplate⟩
    rw [hsettled.resolve, hparts]
    exact hincluded text htext' written hwritten

/-! ## A written definitions file -/

/-- **Definitions that are written are read back**, in their order, with a token for each that has
no parameters. -/
theorem definitionsAt_written {heading : List Text} {entries : List (Definition × List Text)}
    (hheading : ∀ line ∈ heading, IsFiller line)
    (hentries : ∀ entry ∈ entries, entry.1.IsDeclarable ∧ ∀ line ∈ entry.2, IsFiller line)
    (hdistinct : ((entries.map (·.1)).map (·.name)).Nodup)
    (hfile : tree.readBytes home path.route =
      .ok (Utf8.encode (definitionsText heading entries))) :
    definitionsAt tree home path = .ok {
      directives := entries.map (·.1)
      tokens := ((entries.map (·.1)).filter (·.parameters = [])).map fun definition =>
        (tokenOf definition.name, definition.template) } := by
  have hlines := singleLine_of_mem_definitionLines hheading hentries
  have hreturn : '\r' ∉ definitionsText heading entries := Text.not_mem_unlines hlines
  have htext : tree.readText home path.route = .ok (definitionsText heading entries) := by
    unfold readText
    rw [hfile]
    dsimp only
    rw [decode_encode]
    dsimp only
    rw [Text.normalizeBreaks_of_not_mem hreturn]
  rw [definitionsAt_eq_ok_iff]
  exact .inr ⟨_, htext, parse_definitionsText hheading hentries hdistinct⟩

/-- A figure whose default holds brackets, quotes and backslashes, and a directive whose template
looks like comments, definitions and closing lines. -/
def trickyEntries : List (Definition × List Text) :=
  [(⟨⟨"fig", [⟨"src", .required⟩, ⟨"a]t", .optional (some "x]=\"\\,y")⟩]⟩, "a\n"⟩,
      ["", "  # [[hr]] = no"]),
    (⟨⟨"hr", []⟩, "# c\n[[fig]] = ```\n```` \n"⟩, [])]

theorem definitionsAt_trickyEntries :
    definitionsAt ⟨[(["d"], .file (Utf8.encode (definitionsText ["# top"] trickyEntries)))]⟩ []
      (.ofLocation ["d"]) =
        .ok ⟨trickyEntries.map (·.1), [("[[hr]]", "# c\n[[fig]] = ```\n```` \n")]⟩ := by
  have hheading : ∀ line ∈ [("# top" : Text)], IsFiller line := by decide +kernel
  have hentries : ∀ entry ∈ trickyEntries,
      entry.1.IsDeclarable ∧ ∀ line ∈ entry.2, IsFiller line := by decide +kernel
  exact definitionsAt_written hheading hentries (by decide +kernel) (by rfl)

end Folio.Build
