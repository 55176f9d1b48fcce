import Folio.Proofs.Directive.CallText
import Folio.Proofs.Directive.Template

/-!
# Calls mean what they say

A call that is written down (`directiveText`) and expanded gives the lines of the template of its
directive with every slot replaced at once by the value that the arguments give to its name. This
holds for values by position and by name in any order, and whatever commas, quotes, backslashes,
equals signs or slots the values hold.

The main result is `expand_directiveText`. Arguments that do not fit the signature, or a template
with a slot that has no value, make the line fail; no other outcome is possible.
-/

namespace Folio.Directive

/-- What a piece is replaced by if a slot with a name stands for the value of that name. -/
def Piece.replaced (value : Text → Option Text) : Piece → Text
  | .literal c => [c]
  | .slot name => (value name).getD []

/-- The call fits the signature, and every slot of the template, given by its pieces, has a
value. -/
def Definition.Fits (definition : Definition) (call : Call) (ps : List Piece) : Prop :=
  definition.Accepts call ∧ ∀ name ∈ slotNames ps, (definition.value? call name).isSome = true

theorem find?_eq_some_of_mem {definitions : List Definition} {definition : Definition}
    (hdistinct : (definitions.map (·.name)).Nodup) (hmem : definition ∈ definitions) :
    definitions.find? (·.name == definition.name) = some definition := by
  induction definitions with
  | nil => cases hmem
  | cons first rest ih =>
    rw [List.map_cons, List.nodup_cons] at hdistinct
    rcases List.mem_cons.mp hmem with rfl | hmem
    · simp
    · have hne : first.name ≠ definition.name := fun hsame =>
        hdistinct.1 (hsame ▸ List.mem_map.mpr ⟨definition, hmem, rfl⟩)
      rw [List.find?_cons_of_neg (by simpa using hne), ih hdistinct.2 hmem]

/-- A call that is read and whose name is defined is resolved, and its template filled. -/
theorem expandCall_of_parse {definitions : List Definition} {definition : Definition}
    {directive inner : Text} {call : Call} (hinner : unbracket directive = .ok inner)
    (hparse : Call.parse inner = .ok call)
    (hfind : definitions.find? (·.name == call.name) = some definition) :
    expandCall definitions directive = (definition.resolve call >>= fun bindings =>
      some <$> fill definition.template bindings) := by
  simp only [expandCall, hinner, hparse, bind, Except.bind, hfind, Functor.map, Except.map, pure,
    Except.pure]

/-- Filling the slots from bindings that give every name its value replaces them by those values. -/
theorem fill_eq_ok_replaced {template : Text} {bindings : Bindings} {value : Text → Option Text}
    (hvalue : ∀ name, bindings.get? name = value name)
    (hslots : ∀ name ∈ slotNames (pieces template), (value name).isSome = true) :
    fill template bindings = .ok ((pieces template).flatMap (·.replaced value)) := by
  rw [fill_eq_ok (fun name hname => by rw [hvalue name]; exact hslots name hname)]
  have hpiece : (fun piece : Piece => piece.filled bindings) = (·.replaced value) := by
    funext piece
    cases piece with
    | literal c => rfl
    | slot name => simp [Piece.filled, Piece.replaced, hvalue name]
  rw [hpiece]

/-- A directive among definitions with distinct names, whose parameters have distinct names too, and
arguments for it that can be written, no key of them twice. -/
structure Callable (definitions : List Definition) (definition : Definition)
    (arguments : List Argument) : Prop where
  distinct : (definitions.map (·.name)).Nodup
  defined : definition ∈ definitions
  parameters : definition.names.Nodup
  name : Writable definition.name
  writable : ∀ argument ∈ arguments, argument.IsWritable
  keys : ((arguments.filterMap (·.named?)).map (·.1)).Nodup

namespace Callable

variable {definitions : List Definition} {definition : Definition} {arguments : List Argument}

/-- A written call of a defined directive is parsed, and its definition found. -/
theorem expandCall_eq (h : Callable definitions definition arguments) :
    expandCall definitions (directiveText definition.name arguments) =
      (definition.resolve (Call.ofArguments definition.name arguments) >>= fun bindings =>
        some <$> fill definition.template bindings) := by
  have hfind : definitions.find? (·.name == (Call.ofArguments definition.name arguments).name) =
      some definition := find?_eq_some_of_mem h.distinct h.defined
  exact expandCall_of_parse (unbracket_directiveText _ _) (parse_callText h.name h.writable h.keys)
    hfind

/-- A written call that fits is replaced by the lines of the template with its slots replaced. -/
theorem lineOutcome_of_fits (h : Callable definitions definition arguments)
    (hfits : definition.Fits (Call.ofArguments definition.name arguments)
      (pieces definition.template)) :
    lineOutcome definitions (directiveText definition.name arguments) =
      .replaced (Text.lines ((pieces definition.template).flatMap
        (·.replaced (definition.value? (Call.ofArguments definition.name arguments))))) := by
  obtain ⟨bindings, hresolve, hvalue⟩ := exists_resolve_eq_ok h.parameters hfits.1
  have hfill := fill_eq_ok_replaced hvalue hfits.2
  simp only [lineOutcome, wholeLine?_directiveText h.name h.writable, h.expandCall_eq, hresolve,
    bind, Except.bind, hfill, Functor.map, Except.map]

/-- A written call that does not fit fails: its arguments are refused, or a slot has no value. -/
theorem lineOutcome_of_not_fits (h : Callable definitions definition arguments)
    (hfits : ¬ definition.Fits (Call.ofArguments definition.name arguments)
      (pieces definition.template)) :
    ∃ cause, lineOutcome definitions (directiveText definition.name arguments) =
      .failed cause := by
  by_cases haccepts : definition.Accepts (Call.ofArguments definition.name arguments)
  · obtain ⟨bindings, hresolve, hvalue⟩ := exists_resolve_eq_ok h.parameters haccepts
    obtain ⟨name, hslot, hnone⟩ : ∃ name ∈ slotNames (pieces definition.template),
        definition.value? (Call.ofArguments definition.name arguments) name = none := by
      by_contra hall
      refine hfits ⟨haccepts, fun name hslot => ?_⟩
      by_contra hnone
      exact hall ⟨name, hslot, by simpa using hnone⟩
    obtain ⟨cause, hfill⟩ := exists_fill_eq_error hslot ((hvalue name).trans hnone)
    refine ⟨cause, ?_⟩
    simp only [lineOutcome, wholeLine?_directiveText h.name h.writable, h.expandCall_eq,
      hresolve, bind, Except.bind, hfill, Functor.map, Except.map]
  · obtain ⟨cause, hresolve⟩ := exists_resolve_eq_error h.parameters haccepts
    refine ⟨cause, ?_⟩
    simp only [lineOutcome, wholeLine?_directiveText h.name h.writable, h.expandCall_eq,
      hresolve, bind, Except.bind]

end Callable

/-! ## A text of one line -/

theorem examine_of_singleLine (definitions : List Definition) (source : Option Text) {text : Text}
    (hline : text.SingleLine) (hne : text ≠ []) :
    examine definitions source text =
      [⟨placeOf source 1, text, lineOutcome definitions text⟩] := by
  rw [examine, Text.lines_of_singleLine hline hne]
  rfl

theorem getLast?_ne_lineFeed {text : Text} (hline : text.SingleLine) :
    text.getLast? ≠ some '\n' := by
  intro hlast
  have hbreak := hline '\n' (List.mem_of_getLast? hlast)
  exact absurd hbreak (by decide)

/-- A single line that is replaced becomes the lines that replace it, in every mode. -/
theorem expand_of_replaced {definitions : List Definition} {text : Text} {ls : List Text}
    (source : Option Text) (mode : ErrorMode) (hline : text.SingleLine) (hne : text ≠ [])
    (houtcome : lineOutcome definitions text = .replaced ls) :
    expand definitions source mode text = .ok ⟨Text.unlines ls, []⟩ := by
  cases mode <;>
    simp [expand, examine_of_singleLine definitions source hline hne, houtcome,
      ExaminedLine.error?, ExaminedLine.output, getLast?_ne_lineFeed hline]

/-- A single line that fails ends a strict expansion at the first line. -/
theorem expand_strict_of_failed {definitions : List Definition} {text : Text}
    {cause : DirectiveError} (source : Option Text) (hline : text.SingleLine) (hne : text ≠ [])
    (houtcome : lineOutcome definitions text = .failed cause) :
    expand definitions source .strict text = .error ⟨placeOf source 1, cause⟩ := by
  simp [expand, examine_of_singleLine definitions source hline hne, houtcome, ExaminedLine.error?]

/-! ## The main result -/

/-- **Calls mean what they say.** A written call is read back with its name, its values by position
and its values by name. Expanding it gives, in every mode, the lines of the template with all slots
of its reading replaced at once, provided that the arguments fit the signature and every slot has a
value; otherwise the line fails. -/
theorem expand_directiveText {definitions : List Definition} {definition : Definition}
    {arguments : List Argument} (h : Callable definitions definition arguments) :
    Call.parse (callText definition.name arguments) =
        .ok (Call.ofArguments definition.name arguments) ∧
      ∃ ps, Reads definition.template ps ∧
        (definition.Fits (Call.ofArguments definition.name arguments) ps →
          ∀ source mode, expand definitions source mode (directiveText definition.name arguments) =
            .ok ⟨Text.unlines (Text.lines (ps.flatMap (·.replaced
              (definition.value? (Call.ofArguments definition.name arguments))))), []⟩) ∧
        (¬ definition.Fits (Call.ofArguments definition.name arguments) ps →
          ∃ cause, ∀ source,
            expand definitions source .strict (directiveText definition.name arguments) =
              .error ⟨placeOf source 1, cause⟩) := by
  have hline := singleLine_directiveText h.name h.writable
  have hne : directiveText definition.name arguments ≠ [] := by simp [directiveText]
  refine ⟨parse_callText h.name h.writable h.keys, pieces definition.template,
    reads_pieces definition.template, ?_, ?_⟩
  · intro hfits source mode
    exact expand_of_replaced source mode hline hne (h.lineOutcome_of_fits hfits)
  · intro hfits
    obtain ⟨cause, hfailed⟩ := h.lineOutcome_of_not_fits hfits
    exact ⟨cause, fun source => expand_strict_of_failed source hline hne hfailed⟩

/-- A figure with a required source and an optional caption. The end of its template looks like a
slot and is none. -/
def figure : Definition where
  name := "figure"
  parameters := [⟨"src", .required⟩, ⟨"caption", .optional (some "none")⟩]
  template := "<img $\x7bsrc\x7d>\n$\x7bcaption\x7d $\x7bsrc"

/-- The caption comes first, by name; it holds all the marks and a slot of the template. -/
def figureArguments : List Argument :=
  [.named "caption" "a=\"b\\, $\x7bsrc\x7d", .positional "x,y"]

theorem callable_figure : Callable [figure] figure figureArguments where
  distinct := by decide
  defined := List.mem_cons_self
  parameters := by decide
  name := by decide
  writable := by decide
  keys := by decide

theorem fits_figure :
    figure.Fits (Call.ofArguments figure.name figureArguments) (pieces figure.template) := by
  refine ⟨⟨by decide, by decide, ?_⟩, by decide⟩
  intro i parameter hi _
  have htakers : figure.openParameters (Call.ofArguments figure.name figureArguments) =
      [⟨"src", .required⟩] := by decide
  rw [htakers] at hi
  obtain ⟨hlt, -⟩ := List.getElem?_eq_some_iff.mp hi
  obtain rfl : i = 0 := by simpa using hlt
  decide

theorem expand_figure :
    Callable [figure] figure figureArguments ∧
      expand [figure] none .strict (directiveText figure.name figureArguments) =
        .ok ⟨"<img x,y>\na=\"b\\, $\x7bsrc\x7d $\x7bsrc", []⟩ := by
  refine ⟨callable_figure, ?_⟩
  obtain ⟨-, ps, hreads, hok, -⟩ := expand_directiveText callable_figure
  obtain rfl := hreads.eq_pieces
  rw [hok fits_figure none .strict]
  decide

end Folio.Directive
