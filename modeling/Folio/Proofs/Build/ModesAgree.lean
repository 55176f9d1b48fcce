import Folio.Proofs.Build.Reports

/-!
# The error modes agree

A text is expanded in the same way in all error modes, but for what is done about the lines that
fail. What the runs have to do with each other is collected in `ModesAgree`; main result:
`modes_agree`. The error stream shows what a run over a file puts on it (`stream`, `reported`), on
any console.
-/

namespace Folio.Directive

open Text

/-- How the runs over a text are tied together: `kept` is the run that reports failures and goes on,
`embedded` the one that also embeds them. -/
structure ModesAgree (definitions : List Definition) (source : Option Text) (text : Text)
    (kept embedded : Expansion) : Prop where
  /-- Runs that go on never fail. -/
  kept_eq : expand definitions source (.report false) text = .ok kept
  embedded_eq : expand definitions source (.report true) text = .ok embedded
  /-- A text is what its lines contribute, each on its own. -/
  kept_text : kept.text = assemble definitions source (.report false) text
  embedded_text : embedded.text = assemble definitions source (.report true) text
  /-- The failures are those of the lines, in order; embedding them changes nothing about them. -/
  kept_errors : kept.errors = failures definitions source text
  embedded_errors : embedded.errors = kept.errors
  /-- There is one failure for each line that fails. -/
  count : kept.errors.length = text.lines.countP (fails definitions)
  /-- A strict run returns exactly if nothing fails, and then with the same text. -/
  strict_returns : (∃ run, expand definitions source .strict text = .ok run) ↔ kept.errors = []
  strict_eq : kept.errors = [] → expand definitions source .strict text = .ok kept
  /-- Otherwise it fails with the first failure. -/
  strict_fails : ∀ first rest, kept.errors = first :: rest →
    expand definitions source .strict text = .error first
  /-- On the error stream each failure is one line, which shows its message behind a label. It is
  emphasised where the terminal can show it. -/
  stream : ∀ console : Console, ∃ printed,
    (console.reportAll (kept.errors.map Build.errorReport)).err = console.err ++ printed ∧
      Text.lines printed = (kept.errors.map fun error =>
        ("[preprocess] ERROR " : Text) ++ error.message).map console.shown
  /-- A run over a file with this text reports the failures in this way, with notes and without. -/
  reported : ∀ (workspace : Workspace) (path target : Path) (embed : Bool) (found : Definitions),
    source = some path.text → found.directives = definitions →
    workspace.tree.readText workspace.home path.route = .ok text →
    Build.definitionsAt workspace.tree workspace.home Build.definitionsPath = .ok found →
    (Run.exec (Build.enhanceFile path target (.report embed)) workspace).2.console.err =
      (workspace.console.reportAll (kept.errors.map Build.errorReport)).err
  /-- Embedding puts a note of four lines before each line that fails; that line is kept, and the
  others contribute what they did. -/
  inserted : ∀ line number, fails definitions line = true →
    contribution definitions source (.report false) line number = [line] ∧
      ∃ note, contribution definitions source (.report true) line number = note ++ [line] ∧
        note.length = 4 ∧ ∀ noteLine ∈ note, IsNoteLine noteLine
  untouched : ∀ line number, fails definitions line = false →
    contribution definitions source (.report true) line number =
      contribution definitions source (.report false) line number

theorem stream_of_failures {definitions : List Definition} {source : Option Text}
    (hdefinitions : ∀ definition ∈ definitions, definition.NamesSingleLine)
    (hsource : ∀ path ∈ source, SingleLine path) (text : Text) (console : Console) :
    ∃ printed,
      (console.reportAll ((failures definitions source text).map Build.errorReport)).err =
        console.err ++ printed ∧
      Text.lines printed = ((failures definitions source text).map fun error =>
        ("[preprocess] ERROR " : Text) ++ error.message).map console.shown := by
  have hlines : ((failures definitions source text).map Build.errorReport).map (·.line) =
      (failures definitions source text).map fun error =>
        ("[preprocess] ERROR " : Text) ++ error.message := by
    rw [List.map_map]
    exact List.map_congr_left fun error herror => line_errorReport (place_of_mem_failures herror)
  refine ⟨_, rfl, ?_⟩
  rw [console.lines_flatMap_complaintOf, hlines]
  · intro report hreport
    obtain ⟨error, -, rfl⟩ := List.mem_map.mp hreport
    rfl
  · intro report hreport
    obtain ⟨error, herror, rfl⟩ := List.mem_map.mp hreport
    rw [line_errorReport (place_of_mem_failures herror)]
    exact singleLine_of_mem_failures hdefinitions hsource herror

/-- **The error modes agree**, for the directives of any definitions file and any source whose path
has no line break. -/
theorem modes_agree {ε : Type} {load : Text → Except (IncludeError ε) Text} {path config : Text}
    {definitions : Definitions} (hparse : Definitions.parse load path config = .ok definitions)
    {source : Option Text} (hsource : ∀ path ∈ source, SingleLine path) (text : Text) :
    ∃ kept embedded, ModesAgree definitions.directives source text kept embedded := by
  have hnames := namesSingleLine_of_parse hparse
  have hstrict := expand_strict definitions.directives source text
  refine ⟨⟨assemble definitions.directives source (.report false) text,
    failures definitions.directives source text⟩,
    ⟨assemble definitions.directives source (.report true) text,
      failures definitions.directives source text⟩, ?_⟩
  have hnone : failures definitions.directives source text = [] →
      expand definitions.directives source .strict text =
        .ok ⟨assemble definitions.directives source (.report false) text,
          failures definitions.directives source text⟩ := by
    intro hnil
    rw [hstrict, hnil, assemble_eq_of_failures_eq_nil _ _ hnil .strict (.report false)]
  have hfirst : ∀ first rest, failures definitions.directives source text = first :: rest →
      expand definitions.directives source .strict text = .error first := by
    intro first rest hcons
    rw [hstrict, hcons]
  exact {
    kept_eq := expand_report _ _ false text
    embedded_eq := expand_report _ _ true text
    kept_text := rfl
    embedded_text := rfl
    kept_errors := rfl
    embedded_errors := rfl
    count := length_failures _ _ text
    strict_returns := by
      refine ⟨?_, fun hnil => ⟨_, hnone hnil⟩⟩
      rintro ⟨run, hrun⟩
      cases herrors : failures definitions.directives source text with
      | nil => rfl
      | cons first rest =>
        rw [hfirst first rest herrors] at hrun
        cases hrun
    strict_eq := hnone
    strict_fails := hfirst
    stream := stream_of_failures hnames hsource text
    reported := by
      rintro workspace path target embed found rfl hfound htext hdefinitions
      rw [← hfound]
      exact (Build.complains_enhanceFile htext hdefinitions embed).err
    inserted := fun line number hfails => contribution_of_fails hsource number hfails
    untouched := fun line number hfails =>
      contribution_eq_of_not_fails _ _ hfails (.report true) (.report false) number }

/-- A definitions file that is read without any other file, and a source with a call that fails and
one that does not. -/
theorem modes_agree_note :
    Definitions.parse (fun _ => .error (.unreadable ())) "notes.conf"
        "# notes\n[[note, body]] = <b>$\x7bbody\x7d</b>" = .ok ⟨[note], []⟩ ∧
      ∃ kept embedded,
        ModesAgree [note] (some "a.md") "[[note]]\n[[note, x]]\n" kept embedded := by
  have hparse : Definitions.parse (fun _ => .error (.unreadable ())) "notes.conf"
      "# notes\n[[note, body]] = <b>$\x7bbody\x7d</b>" = .ok ⟨[note], []⟩ := by decide
  exact ⟨hparse, modes_agree hparse (by decide) _⟩

end Folio.Directive
