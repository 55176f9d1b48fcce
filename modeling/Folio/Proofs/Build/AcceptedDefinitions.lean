import Folio.Proofs.Build.TwoPaths
import Folio.Proofs.Directive.ItemGrammar

/-!
# What an accepted definitions file holds

The stages behind the reader of definitions rely on what it has checked: names and parameters are
proper, each directive is found under its own name, and the tokens are those of the directives
without parameters (`Definitions.IsProper`). Some of its checks cannot fail: no item of a signature
is blank, so that names are never empty, and two directives of different names never share a token.
Main result: `definitions_accepted`.

* `proper_of_items`: what the scanner of items leaves to the reader of signatures;
* `parse_ne_emptySignatureName`, `declaresUnnamed_of_parse`: the errors of signatures;
* `arises_of_definitionsAt`: the errors of the whole file.
-/

namespace Folio

namespace Directive

open Text

/-! ## Signatures -/

/-- There is at least one item, and no item is blank. -/
theorem proper_of_items {text : Text} {parts : List Text} (h : items text = .ok parts) :
    parts ≠ [] ∧ ∀ item ∈ parts, item ≠ [] ∧ item.Trimmed := by
  obtain ⟨contents, hlist, hnone, rfl⟩ := items_eq_ok_iff.mp h
  constructor
  · cases hlist <;> simp
  · intro item hitem
    obtain ⟨content, hmem, rfl⟩ := List.mem_map.mp hitem
    exact ⟨fun hnil => hnone content hmem (strip_eq_nil_iff.mp hnil), trimmed_strip content⟩

theorem eq_of_unbracket_eq_error {text : Text} {error : DirectiveError}
    (h : unbracket text = .error error) :
    error = .notDirective text ∨ error = .emptyDirective text := by
  unfold unbracket at h
  dsimp only at h
  split at h
  · split at h
    · exact .inr (Except.error.inj h).symm
    · cases h
  · exact .inl (Except.error.inj h).symm

/-- The steps in which a signature can be refused: its brackets, its items, its parameters. The name
is no step of its own. -/
theorem parse_eq_error_cases {written : Text} {error : DirectiveError}
    (h : Signature.parse written = .error error) :
    unbracket written = .error error ∨ ∃ inner, unbracket written = .ok inner ∧
      (items inner = .error error ∨ ∃ name rest, items inner = .ok (name :: rest) ∧
        rest.foldlM (declare written) [] = .error error) := by
  unfold Signature.parse at h
  rcases bind_eq_error_iff.mp h with hbrackets | ⟨inner, hinner, h⟩
  · exact .inl hbrackets
  · refine .inr ⟨inner, hinner, ?_⟩
    rcases bind_eq_error_iff.mp h with hitems | ⟨parts, hparts, h⟩
    · exact .inl hitems
    · obtain ⟨hne, hproper⟩ := proper_of_items hparts
      cases parts with
      | nil => exact absurd rfl hne
      | cons name rest =>
        obtain ⟨hname, htrimmed⟩ := hproper name List.mem_cons_self
        dsimp only at h
        rw [htrimmed.strip_eq, if_neg hname] at h
        rcases bind_eq_error_iff.mp h with hrest | ⟨parameters, -, h⟩
        · exact .inr ⟨name, rest, hparts, hrest⟩
        · cases h

/-- A signature is never refused for an empty name. -/
theorem parse_ne_emptySignatureName (written shown : Text) :
    Signature.parse written ≠ .error (.emptySignatureName shown) := by
  intro h
  rcases parse_eq_error_cases h with hbrackets | ⟨inner, -, hitems | ⟨name, rest, -, hrest⟩⟩
  · rcases eq_of_unbracket_eq_error hbrackets with h | h <;> cases h
  · rcases eq_of_items_eq_error hitems with h | h <;> cases h
  · obtain ⟨_, item, _, declared, -, -, hitem⟩ := exists_of_foldlM_eq_error hrest
    unfold declare at hitem
    split at hitem <;> dsimp only at hitem <;> split_ifs at hitem <;> cases hitem

/-- Behind the name and some parameters an item of the signature begins with an equals sign. -/
def DeclaresUnnamed (written : Text) : Prop :=
  ∃ inner name front right back declared, unbracket written = .ok inner ∧
    items inner = .ok (name :: (front ++ ('=' :: right) :: back)) ∧
    front.foldlM (declare written) [] = .ok declared

/-- A parameter has no name only if it is optional. -/
theorem eq_cons_of_declare {signature shown item : Text} {declared : List Parameter}
    (hitem : item ≠ [] ∧ item.Trimmed)
    (h : declare signature declared item = .error (.emptyParameter shown)) :
    shown = signature ∧ ∃ right, item = '=' :: right := by
  unfold declare at h
  split at h
  · rename_i left right hcut
    obtain ⟨rfl, -⟩ := cutAt_eq_some_iff.mp hcut
    dsimp only at h
    split_ifs at h with hname hknown hdefault
    · cases h
      refine ⟨rfl, right, ?_⟩
      -- the item has no blank at its front, so nothing stands before the equals sign
      cases left with
      | nil => rfl
      | cons c left =>
        have hblank := strip_eq_nil_iff.mp hname c List.mem_cons_self
        have hfront := hitem.2.1 c rfl
        rw [hblank] at hfront
        cases hfront
    · cases h
    · cases h
  · dsimp only at h
    split_ifs at h with hname hknown hoptional
    · rw [hitem.2.strip_eq] at hname
      exact absurd hname hitem.1
    · cases h
    · cases h

/-- A signature is refused for a parameter without a name only if that is an optional one. -/
theorem declaresUnnamed_of_parse {written shown : Text}
    (h : Signature.parse written = .error (.emptyParameter shown)) :
    shown = written ∧ DeclaresUnnamed written := by
  rcases parse_eq_error_cases h with
    hbrackets | ⟨inner, hinner, hitems | ⟨name, rest, hparts, hrest⟩⟩
  · rcases eq_of_unbracket_eq_error hbrackets with h | h <;> cases h
  · rcases eq_of_items_eq_error hitems with h | h <;> cases h
  · obtain ⟨front, item, back, declared, rfl, hfront, hitem⟩ := exists_of_foldlM_eq_error hrest
    have hproper := (proper_of_items hparts).2 item (by simp)
    obtain ⟨hshown, right, rfl⟩ := eq_cons_of_declare hproper hitem
    exact ⟨hshown, inner, name, front, right, back, declared, hinner, hparts, hfront⟩

/-! ## What is accepted -/

/-- Each directive is found under its own name and has a proper signature; the tokens are those of
the directives without parameters, in their order, and no two are the same. -/
structure Definitions.IsProper (definitions : Definitions) : Prop where
  found : ∀ definition ∈ definitions.directives,
    definitions.directives.find? (·.name == definition.name) = some definition
  proper : ∀ definition ∈ definitions.directives, definition.toSignature.IsProper
  tokens : definitions.tokens =
    (definitions.directives.filter (·.parameters = [])).map fun definition =>
      (tokenOf definition.name, definition.template)
  distinct : definitions.tokens.names.Nodup

end Directive

namespace Build

open Directive

variable {tree : FileTree} {home : Location} {path : Path}

theorem isProper_of_definitionsAt {definitions : Definitions}
    (h : definitionsAt tree home path = .ok definitions) : definitions.IsProper := by
  have hdeclared := declared_of_definitionsAt h
  refine ⟨fun definition hmem => ?_, fun definition hmem => ?_, ?_, distinct_tokens h⟩
  · exact find?_eq_some_of_mem hdeclared.distinct hmem
  · exact (hdeclared.declared definition hmem).isProper
  · exact congrArg Definitions.tokens hdeclared.eq_ofDirectives

/-- A definitions file is refused only for what can arise. -/
theorem arises_of_definitionsAt {place : Text} {cause : DefinitionError}
    (h : definitionsAt tree home path = .error (.definitions place cause)) : cause.Arises := by
  unfold definitionsAt at h
  split at h
  · cases h
  · cases h
  · split at h
    · rename_i error _
      cases error <;> cases h
    · split at h
      · cases h
      · rename_i hparse
        cases h
        exact (outcome_parse _ _).2 _ hparse
      · rename_i hparse
        obtain ⟨written, hincluded⟩ := (outcome_parse _ _).2 _ hparse
        obtain ⟨error, rfl⟩ := exists_of_includedTemplate_unreadable hincluded
        cases error <;> cases h

/-! ## The main result -/

/-- **What a definitions file is accepted and refused for.** Whatever the files are, the definitions
that are read are proper. A file is never refused for a token that comes twice or for a signature
without a name, and for a parameter without a name only if that is an optional one. -/
theorem definitions_accepted (tree : FileTree) (home : Location) (path : Path) :
    (∀ definitions, definitionsAt tree home path = .ok definitions → definitions.IsProper) ∧
      ∀ place cause, definitionsAt tree home path = .error (.definitions place cause) →
        (∀ token, cause ≠ .duplicateToken token) ∧
        (∀ written, cause ≠ .badSignature (.emptySignatureName written)) ∧
        ∀ written, cause = .badSignature (.emptyParameter written) → DeclaresUnnamed written := by
  refine ⟨fun definitions => isProper_of_definitionsAt, fun place cause h => ?_⟩
  have harises := arises_of_definitionsAt h
  refine ⟨?_, ?_, ?_⟩
  · rintro token rfl
    exact harises
  · rintro shown rfl
    obtain ⟨written, hparse⟩ := harises
    exact parse_ne_emptySignatureName written shown hparse
  · rintro shown rfl
    obtain ⟨written, hparse⟩ := harises
    obtain ⟨rfl, hunnamed⟩ := declaresUnnamed_of_parse hparse
    exact hunnamed

/-- A directive with a parameter that has a default, and one without parameters. -/
def twoDirectives : Definitions where
  directives := [⟨⟨"card", [⟨"to", .optional (some "a=b")⟩]⟩, "x"⟩, ⟨⟨"rule", []⟩, "<hr>"⟩]
  tokens := [("[[rule]]", "<hr>")]

/-- A book with the one definitions file at `d`. -/
def bookOf (text : Text) : FileTree := ⟨[(["d"], .file (Utf8.encode text))]⟩

/-- The definitions of the first file are proper. In the second file a parameter has a default, but
no name. -/
theorem definitions_accepted_twoDirectives :
    (definitionsAt (bookOf "[[card, to = a=b]] = x\n\n[[ rule ]]=<hr>") [] (.ofLocation ["d"]) =
        .ok twoDirectives ∧ twoDirectives.IsProper) ∧
      definitionsAt (bookOf "[[card, to, =b]] = x") [] (.ofLocation ["d"]) =
        .error (.definitions "/d:1" (.badSignature (.emptyParameter "[[card, to, =b]]"))) ∧
      DeclaresUnnamed "[[card, to, =b]]" := by
  have haccepted : definitionsAt (bookOf "[[card, to = a=b]] = x\n\n[[ rule ]]=<hr>") []
      (.ofLocation ["d"]) = .ok twoDirectives := by
    decide +kernel
  have hrefused : definitionsAt (bookOf "[[card, to, =b]] = x") [] (.ofLocation ["d"]) =
      .error (.definitions "/d:1" (.badSignature (.emptyParameter "[[card, to, =b]]"))) := by
    decide +kernel
  refine ⟨⟨haccepted, ?_⟩, hrefused, ?_⟩
  · exact (definitions_accepted _ _ _).1 twoDirectives haccepted
  · exact ((definitions_accepted _ _ _).2 _ _ hrefused).2.2 _ rfl

end Build

end Folio
