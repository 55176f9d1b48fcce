import Folio.Proofs.Build.FailedLines
import Folio.Proofs.Build.TemplateFaults
import Folio.Proofs.Directive.CallExpansion
import Folio.Proofs.Directive.UndefinedCalls
import Folio.Proofs.Page.TokenOrder

/-!
# Two ways to a template

A directive without parameters can be called on a line of its own, and it is a token anywhere in a
text. Where both apply, the call comes first. It makes no difference: the line that is a token
becomes the template either way, since tokens are replaced line by line (`replaceAll_unlines`) and a
template without brackets is not changed by the tokens any more.

* `replaceAll_token`: replacing the tokens of a text that is one token gives its template.
* `lineOutcome_token`: so does the call on a line.
* `expansion_then_tokens`: a text whose lines are tokens, plain lines or calls of directives that
  are not defined becomes the same whether its calls are expanded before or not.
-/

namespace Folio

namespace Page

open Text Directive

/-- A token on its own becomes its replacement, if no replacement can begin a token. -/
theorem replaceAll_token {rules : Bindings} (htokens : PlainTokens rules)
    (hdistinct : rules.names.Nodup) (hopening : ∀ rule ∈ rules, '[' ∉ rule.2) {i : TokenName}
    {rule : Text × Text} (hrule : rule ∈ rules) (htoken : i.token = rule.1) :
    replaceAll rules i.token = rule.2 := by
  let cut : Cut TokenName := .next [] i (.last [])
  have hcut (value : TokenName → Text) : cut.filled value = value i := List.append_nil _
  have hfilled : replaceAll rules (cut.filled TokenName.token) =
      cut.filled (replacementOf rules) := by
    refine replaceAll_eq_filled_of_foundInTurn htokens hdistinct fun order hnodup horder => ?_
    refine foundInTurn_of_plain (c := '[') separate_token (fun _ => List.mem_cons_self)
      (by simp [cut, Cut.stretches]) (fun _ => .inl rfl) hnodup (fun _ _ => rfl) fun j hj => ?_
    obtain ⟨other, hother, hsame⟩ := List.mem_map.mp (horder j (List.dropLast_subset _ hj))
    rw [replacementOf_of_mem hdistinct hother hsame.symm]
    exact hopening other hother
  rw [hcut, hcut, replacementOf_of_mem hdistinct hrule htoken] at hfilled
  exact hfilled

/-- A text without opening brackets has no tokens. -/
theorem replaceAll_of_no_opening {rules : Bindings} (htokens : PlainTokens rules) {text : Text}
    (h : '[' ∉ text) : replaceAll rules text = text := by
  have htoken : ∀ rule ∈ rules, '[' ∈ rule.1 := by
    intro rule hrule
    obtain ⟨i, hi⟩ := htokens rule hrule
    exact hi ▸ List.mem_cons_self
  refine replaceAll_of_absent (fun rule hrule => List.ne_nil_of_mem (htoken rule hrule)) ?_
  intro rule hrule hwithin
  exact h (hwithin.subset (htoken rule hrule))

end Page

namespace Directive

open Text Page

/-- The directive has no parameters, its name is read as it is written, and nothing in its template
is replaced or read differently. -/
structure Definition.IsPlain (definition : Definition) : Prop where
  parameters : definition.parameters = []
  noOpening : '[' ∉ definition.name
  noClosing : ']' ∉ definition.name
  noComma : ',' ∉ definition.name
  noQuote : '"' ∉ definition.name
  template_ne_nil : definition.template ≠ []
  noBracket : '[' ∉ definition.template ∧ ']' ∉ definition.template
  noSlot : ∀ name, ¬ HasSlot definition.template name
  lineFeedsOnly : LineFeedsOnly definition.template
  notClosed : definition.template.getLast? ≠ some '\n'

/-- If the line is a directive, it is the token of a defined one, or a call that can be read of one
that is not defined. -/
def TokenOrUndefined (definitions : List Definition) (line : Text) : Prop :=
  ∀ directive, wholeLine? line = some directive →
    (∃ definition ∈ definitions, line = tokenOf definition.name) ∨
    ∃ inner call, unbracket directive = .ok inner ∧ Call.parse inner = .ok call ∧
      ∀ definition ∈ definitions, definition.name ≠ call.name

/-! ## The line -/

theorem strip_tokenOf (name : Text) : strip (tokenOf name) = tokenOf name := by
  refine Trimmed.strip_eq ⟨?_, ?_⟩
  · rintro c ⟨⟩
    decide
  · rw [getLast?_tokenOf]
    rintro c ⟨⟩
    decide

theorem between_tokenOf (name : Text) : between (tokenOf name) = name := by
  rw [between, tokenOf_eq]
  simp

theorem wholeLine?_token (i : TokenName) : wholeLine? i.token = some i.token := by
  have hbetween := between_tokenOf i.name
  have hclosing : ("]]" : Text).isSuffixOf (tokenOf i.name) = true :=
    List.isSuffixOf_iff_suffix.mpr (List.suffix_append _ _)
  have hopening : ("[[" : Text).isPrefixOf (tokenOf i.name) = true :=
    List.isPrefixOf_iff_prefix.mpr ⟨_, (List.append_assoc _ _ _).symm⟩
  unfold wholeLine? TokenName.token
  dsimp only
  rw [between] at hbetween
  rw [strip_tokenOf, hbetween, hopening, hclosing]
  simp [i.ne_nil, i.noClosing]

theorem parse_name {name : Text} (hne : name ≠ []) (htrimmed : name.Trimmed) (hcomma : ',' ∉ name)
    (hquote : '"' ∉ name) : Call.parse name = .ok { name } := by
  have hall : ∀ c ∈ name, decide (c ≠ ',') = true := by
    intro c hc
    rw [decide_eq_true_eq]
    rintro rfl
    exact hcomma hc
  have hwritten : writtenName (tokenOf name) = name := by
    rw [writtenName, between_tokenOf, List.takeWhile_eq_self_iff.mpr hall, htrimmed.strip_eq]
  have harguments : argumentText? (tokenOf name) = none := by
    rw [argumentText?, between_tokenOf, htrimmed.strip_eq, List.dropWhile_eq_nil_iff.mpr hall]
    rfl
  have hparse : Call.parse (strip (between (tokenOf name))) = _ :=
    parse_written (by rwa [hwritten]) (by rwa [hwritten])
  rwa [between_tokenOf, htrimmed.strip_eq, harguments, hwritten] at hparse

/-- A call without arguments of a directive without parameters. -/
theorem resolve_name {signature : Signature} (h : signature.parameters = []) (name : Text) :
    signature.resolve { name } = .ok [] := by
  simp [Signature.resolve, Signature.unnamed, Signature.names, Signature.defaults,
    h, Bindings.names, Text.sortedSet]

/-- The call of a plain directive becomes the lines of its template. -/
theorem lineOutcome_token {definitions : List Definition}
    (hdistinct : (definitions.map (·.name)).Nodup) {definition : Definition}
    (hmem : definition ∈ definitions) (hproper : definition.toSignature.IsProper)
    (hplain : definition.IsPlain) :
    lineOutcome definitions (tokenOf definition.name) = .replaced definition.template.lines := by
  have hline := wholeLine?_token
    ⟨definition.name, hproper.ne_nil, hplain.noOpening, hplain.noClosing⟩
  have hunbracket := of_wholeLine? hline
  rw [TokenName.token] at hline hunbracket
  rw [between_tokenOf, hproper.trimmed.strip_eq, if_neg hproper.ne_nil] at hunbracket
  have hparse := parse_name hproper.ne_nil hproper.trimmed hplain.noComma hplain.noQuote
  have hcall : expandCall definitions (tokenOf definition.name) =
      .ok (some definition.template) := by
    rw [expandCall_of_parse hunbracket hparse (find?_eq_some_of_mem hdistinct hmem),
      resolve_name hplain.parameters]
    exact congrArg (some <$> ·) (fill_of_noSlot hplain.noSlot [])
  exact lineOutcome_eq_replaced_iff.mpr ⟨_, _, hline, hcall, rfl⟩

/-- What a line becomes that does not fail. -/
def expandedLine (definitions : List Definition) (line : Text) : List Text :=
  match lineOutcome definitions line with
  | .replaced ls => ls
  | _ => [line]

theorem contribution_eq_expandedLine {definitions : List Definition} {line : Text}
    (h : fails definitions line = false) (source : Option Text) (mode : ErrorMode) (number : Nat) :
    contribution definitions source mode line number = expandedLine definitions line := by
  unfold fails at h
  rw [contribution_eq, expandedLine]
  cases houtcome : lineOutcome definitions line with
  | kept => rfl
  | replaced ls => rfl
  | failed cause =>
    rw [houtcome] at h
    cases h

theorem assemble_eq_expandedLines {definitions : List Definition} {text : Text}
    (h : ∀ line ∈ text.lines, fails definitions line = false) (source : Option Text)
    (mode : ErrorMode) :
    assemble definitions source mode text =
      unlines (text.lines.flatMap (expandedLine definitions)) ++
        (if text.getLast? = some '\n' then ['\n'] else []) := by
  have hlines : ((text.lines.zipIdx 1).flatMap fun numbered =>
      contribution definitions source mode numbered.1 numbered.2) =
        text.lines.flatMap (expandedLine definitions) := by
    rw [List.flatMap_congr fun numbered hmem => contribution_eq_expandedLine
      (h numbered.1 (List.fst_mem_of_mem_zipIdx hmem)) source mode numbered.2]
    nth_rewrite 2 [← List.zipIdx_map_fst 1 text.lines]
    rw [List.flatMap_map]
  unfold assemble
  exact congrArg (unlines · ++ _) hlines

end Directive

namespace Build

open Text Directive Page

section Paths

variable {tree : FileTree} {home : Location} {path : Path} {definitions : Definitions}

theorem mem_tokens_iff (h : definitionsAt tree home path = .ok definitions) {rule : Text × Text} :
    rule ∈ definitions.tokens ↔ ∃ definition ∈ definitions.directives, definition.parameters = [] ∧
      (tokenOf definition.name, definition.template) = rule := by
  have heq := (declared_of_definitionsAt h).eq_ofDirectives
  rw [congrArg Definitions.tokens heq, Definitions.ofDirectives]
  simp only [List.mem_map, List.mem_filter, decide_eq_true_eq, and_assoc]

theorem distinct_tokens (h : definitionsAt tree home path = .ok definitions) :
    definitions.tokens.names.Nodup := by
  have hdeclared := declared_of_definitionsAt h
  have hnames : definitions.tokens.names =
      ((definitions.directives.filter (·.parameters = [])).map (·.name)).map tokenOf := by
    rw [congrArg Definitions.tokens hdeclared.eq_ofDirectives, Definitions.ofDirectives,
      Bindings.names, List.map_map, List.map_map]
    rfl
  rw [hnames]
  exact .map tokenOf_injective (hdeclared.distinct.sublist (List.filter_sublist.map _))

theorem plainTokens_of_plain (h : definitionsAt tree home path = .ok definitions)
    (hplain : ∀ definition ∈ definitions.directives, definition.IsPlain) :
    PlainTokens definitions.tokens := by
  intro rule hrule
  obtain ⟨definition, hmem, -, rfl⟩ := (mem_tokens_iff h).mp hrule
  have hproper := ((declared_of_definitionsAt h).declared definition hmem).isProper
  have hdefinition := hplain definition hmem
  exact ⟨⟨definition.name, hproper.ne_nil, hdefinition.noOpening, hdefinition.noClosing⟩, rfl⟩

/-- What a line is expanded to and the line itself become the same where tokens are replaced. -/
theorem replaceAll_expandedLine (h : definitionsAt tree home path = .ok definitions)
    (hplain : ∀ definition ∈ definitions.directives, definition.IsPlain) {line : Text}
    (hline : TokenOrUndefined definitions.directives line) :
    fails definitions.directives line = false ∧ expandedLine definitions.directives line ≠ [] ∧
      replaceAll definitions.tokens (unlines (expandedLine definitions.directives line)) =
        replaceAll definitions.tokens line := by
  have hdeclared := declared_of_definitionsAt h
  have hkept (houtcome : lineOutcome definitions.directives line = .kept) :
      fails definitions.directives line = false ∧ expandedLine definitions.directives line ≠ [] ∧
        replaceAll definitions.tokens (unlines (expandedLine definitions.directives line)) =
          replaceAll definitions.tokens line := by
    unfold fails expandedLine
    rw [houtcome]
    exact ⟨rfl, List.cons_ne_nil _ _, by rw [unlines, join_singleton]⟩
  cases hwhole : wholeLine? line with
  | none => exact hkept (lineOutcome_of_none hwhole)
  | some directive =>
    rcases hline directive hwhole with ⟨definition, hmem, rfl⟩ | ⟨inner, call, hinner, hcall, hnone⟩
    · have hdefinition := hplain definition hmem
      have hproper := (hdeclared.declared definition hmem).isProper
      have houtcome := lineOutcome_token hdeclared.distinct hmem hproper hdefinition
      have htemplate := unlines_lines hdefinition.lineFeedsOnly
      rw [if_neg hdefinition.notClosed, List.append_nil] at htemplate
      have htokens := plainTokens_of_plain h hplain
      have hopening : ∀ rule ∈ definitions.tokens, '[' ∉ rule.2 := by
        intro rule hrule
        obtain ⟨other, hother, -, rfl⟩ := (mem_tokens_iff h).mp hrule
        exact (hplain other hother).noBracket.1
      have hrule := (mem_tokens_iff h).mpr ⟨definition, hmem, hdefinition.parameters, rfl⟩
      have htoken := replaceAll_token htokens (distinct_tokens h) hopening hrule
        (i := ⟨definition.name, hproper.ne_nil, hdefinition.noOpening, hdefinition.noClosing⟩) rfl
      unfold fails expandedLine
      rw [houtcome]
      refine ⟨rfl, ?_, ?_⟩
      · obtain ⟨others, hothers⟩ := exists_lines_eq_cons hdefinition.template_ne_nil
        exact hothers ▸ List.cons_ne_nil _ _
      · dsimp only
        rw [htemplate, replaceAll_of_no_opening htokens hdefinition.noBracket.1]
        exact htoken.symm
    · exact hkept (lineOutcome_of_undefined hwhole hinner hcall hnone)

/-- **The two ways to a template agree.** If all directives are plain, and every directive of a text
is a token on its line or a call of a directive that is not defined, expanding the directives and
then replacing the tokens gives what replacing the tokens alone gives. -/
theorem expansion_then_tokens (h : definitionsAt tree home path = .ok definitions)
    (hplain : ∀ definition ∈ definitions.directives, definition.IsPlain) {text : Text}
    (htext : LineFeedsOnly text)
    (hlines : ∀ line ∈ text.lines, TokenOrUndefined definitions.directives line)
    (source : Option Text) (mode : ErrorMode) :
    ∃ expanded, expand definitions.directives source mode text = .ok ⟨expanded, []⟩ ∧
      substitute definitions.tokens expanded = substitute definitions.tokens text := by
  have hfails := fun line hline => (replaceAll_expandedLine h hplain (hlines line hline)).1
  have hsome := fun line hline => (replaceAll_expandedLine h hplain (hlines line hline)).2.1
  have hsame := fun line hline => (replaceAll_expandedLine h hplain (hlines line hline)).2.2
  have hrules := withinLines_of_definitionsAt h
  refine ⟨_, expand_of_not_fails _ source hfails mode, ?_⟩
  have hunlines : replaceAll definitions.tokens
      (unlines (text.lines.flatMap (expandedLine definitions.directives))) =
        replaceAll definitions.tokens (unlines text.lines) := by
    rw [unlines_flatMap hsome, replaceAll_unlines hrules, replaceAll_unlines hrules, List.map_map]
    exact congrArg unlines (List.map_congr_left hsame)
  have hreplaced : replaceAll definitions.tokens
      (assemble definitions.directives source mode text) = replaceAll definitions.tokens
        (unlines text.lines ++ (if text.getLast? = some '\n' then ['\n'] else [])) := by
    rw [assemble_eq_expandedLines hfails]
    split
    · rw [replaceAll_append_lineFeed hrules, replaceAll_append_lineFeed hrules, hunlines]
    · rw [List.append_nil, List.append_nil, hunlines]
  rw [unlines_lines htext] at hreplaced
  rw [substitute_eq, substitute_eq, hreplaced]

end Paths

/-- A line, and a box of two lines. -/
def ornaments : List Definition :=
  [{ name := "line", parameters := [], template := "<hr>" },
    { name := "box", parameters := [], template := "<b>\n</b>" }]

def ornamentBook : FileTree :=
  ⟨[(["d"], .file (Utf8.encode "[[line]] = <hr>\n[[box]] = ```\n<b>\n</b>\n```\n"))]⟩

/-- The box has a line of its own, the line stands within one, and the aside is not defined. -/
def ornamentedLines : List Text := ["[[box]]", "a [[line]]", "[[aside, k=v]]"]

theorem isPlain_ornaments : ∀ definition ∈ ornaments, definition.IsPlain := by
  have hnoSlot {template : Text} (h : slotNames (pieces template) = []) (name : Text) :
      ¬ HasSlot template name := by
    rw [← mem_slotNames_iff, h]
    exact List.not_mem_nil
  intro definition hmem
  rcases List.mem_pair.mp hmem with rfl | rfl
  · exact ⟨rfl, by decide, by decide, by decide, by decide, by decide, by decide,
      hnoSlot (by decide), by decide, by decide⟩
  · exact ⟨rfl, by decide, by decide, by decide, by decide, by decide, by decide,
      hnoSlot (by decide), by decide, by decide⟩

theorem tokenOrUndefined_ornamentedLines :
    ∀ line ∈ ornamentedLines, TokenOrUndefined ornaments line := by
  intro line hline directive hdirective
  rcases List.mem_cons.mp hline with rfl | hline
  · exact .inl ⟨_, List.mem_cons_of_mem _ List.mem_cons_self, rfl⟩
  rcases List.mem_pair.mp hline with rfl | rfl
  · have hnone : wholeLine? "a [[line]]" = none := by decide
    rw [hnone] at hdirective
    cases hdirective
  · obtain rfl : ("[[aside, k=v]]" : Text) = directive :=
      Option.some.inj (Eq.trans (by decide) hdirective)
    exact .inr ⟨"aside, k=v", ⟨"aside", [], [("k", "v")]⟩, by decide, by decide, by decide⟩

theorem expansion_then_tokens_ornaments :
    definitionsAt ornamentBook [] (.ofLocation ["d"]) = .ok (.ofDirectives ornaments) ∧
      expand ornaments none .strict (unlines ornamentedLines) =
        .ok ⟨"<b>\n</b>\na [[line]]\n[[aside, k=v]]", []⟩ ∧
      substitute (Definitions.ofDirectives ornaments).tokens
          "<b>\n</b>\na [[line]]\n[[aside, k=v]]" =
        substitute (Definitions.ofDirectives ornaments).tokens (unlines ornamentedLines) := by
  have hdefinitions : definitionsAt ornamentBook [] (.ofLocation ["d"]) =
      .ok (.ofDirectives ornaments) := by decide +kernel
  have hlines : lines (unlines ornamentedLines) = ornamentedLines := by decide
  have hcomputed : expand ornaments none .strict (unlines ornamentedLines) =
      .ok ⟨"<b>\n</b>\na [[line]]\n[[aside, k=v]]", []⟩ := by decide +kernel
  have htext : LineFeedsOnly (unlines ornamentedLines) := by decide
  obtain ⟨expanded, hexpanded, hsame⟩ := expansion_then_tokens hdefinitions isPlain_ornaments htext
    (hlines.symm ▸ tokenOrUndefined_ornamentedLines) none .strict
  obtain rfl : ("<b>\n</b>\na [[line]]\n[[aside, k=v]]" : Text) = expanded :=
    congrArg Expansion.text (Except.ok.inj (hcomputed.symm.trans hexpanded))
  exact ⟨hdefinitions, hcomputed, hsame⟩

end Build

end Folio
