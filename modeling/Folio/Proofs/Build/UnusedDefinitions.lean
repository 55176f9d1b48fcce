import Folio.Proofs.Build.Openings
import Folio.Proofs.Build.Reports
import Folio.Proofs.Build.TwoPaths
import Folio.Proofs.Directive.Characters

/-!
# Definitions that are not used

A directive without parameters is used in two ways: a line calls it, or its token stands in the text
when its turn comes (`Unused` excludes both). Both are about the text at hand and not about the name
as it is written: a call may quote its name, and a token may be put together from a template, the
values in it and what earlier tokens leave.

* `enhance_insert`: a directive that is not used makes no difference, wherever it is defined.
* `exists_enhance_ne`: a directive that is used does, with some template. The template is taken so
  long that no page without it has as many lines of its kind (`flood`).
* `unused_of_foreign`: a character of its name that is in none of the texts is enough.
* `unused_definition`: the same of the page that is written.
* `not_unused_by_name`: that the name is nowhere written is not enough.
-/

namespace Folio

namespace Directive

open Text Page

/-! ## One more directive -/

/-- The line is a call of the name, as calls are read. -/
def Calls (line name : Text) : Prop :=
  ∃ directive inner call, wholeLine? line = some directive ∧ unbracket directive = .ok inner ∧
    Call.parse inner = .ok call ∧ call.name = name

section Insert

variable {front back : List Definition} {definition : Definition} {line : Text}

/-- A directive that a line does not call makes no difference for it. -/
theorem lineOutcome_insert (h : ¬ Calls line definition.name) :
    lineOutcome (front ++ definition :: back) line = lineOutcome (front ++ back) line := by
  unfold lineOutcome
  cases hwhole : wholeLine? line with
  | none => rfl
  | some directive =>
    have hcall : expandCall (front ++ definition :: back) directive =
        expandCall (front ++ back) directive := by
      unfold expandCall
      cases hinner : unbracket directive with
      | error cause => rfl
      | ok inner =>
        cases hparse : Call.parse inner with
        | error cause =>
          simp only [bind, Except.bind, hparse]
        | ok call =>
          have hne : definition.name ≠ call.name := fun hsame =>
            h ⟨directive, inner, call, hwhole, hinner, hparse, hsame.symm⟩
          have hfind : (front ++ definition :: back).find? (·.name == call.name) =
              (front ++ back).find? (·.name == call.name) := by
            rw [List.find?_append, List.find?_append, List.find?_cons_of_neg (by simpa using hne)]
          simp only [bind, Except.bind, hparse, hfind]
    dsimp only
    rw [hcall]

theorem expand_congr {definitions other : List Definition} {text : Text}
    (h : ∀ line ∈ text.lines, lineOutcome definitions line = lineOutcome other line)
    (source : Option Text) (mode : ErrorMode) :
    expand definitions source mode text = expand other source mode text := by
  have hexamine : examine definitions source text = examine other source text := by
    refine List.map_congr_left ?_
    rintro ⟨line, number⟩ hmem
    dsimp only
    rw [h line (List.fst_mem_of_mem_zipIdx hmem)]
  unfold expand
  rw [hexamine]

theorem tokens_insert (hparameters : definition.parameters = []) :
    (Definitions.ofDirectives (front ++ definition :: back)).tokens =
      (Definitions.ofDirectives front).tokens ++ (tokenOf definition.name, definition.template) ::
        (Definitions.ofDirectives back).tokens := by
  unfold Definitions.ofDirectives
  dsimp only
  rw [List.filter_append, List.filter_cons_of_pos (by simpa using hparameters), List.map_append,
    List.map_cons]

theorem tokens_append (front back : List Definition) :
    (Definitions.ofDirectives (front ++ back)).tokens =
      (Definitions.ofDirectives front).tokens ++ (Definitions.ofDirectives back).tokens := by
  unfold Definitions.ofDirectives
  dsimp only
  rw [List.filter_append, List.map_append]

end Insert

/-- A call of a directive without parameters gives no arguments, or it is refused. -/
theorem resolve_of_no_parameters {signature : Signature} (h : signature.parameters = [])
    (call : Call) :
    signature.resolve call = .ok [] ∨ ∃ cause, signature.resolve call = .error cause := by
  cases hresolve : signature.resolve call with
  | error cause => exact .inr ⟨cause, rfl⟩
  | ok bindings =>
    have hnames : signature.names = [] := by rw [Signature.names, h, List.map_nil]
    obtain ⟨haccepts, rfl⟩ := (resolve_eq_ok_iff (hnames ▸ List.nodup_nil)).mp hresolve
    have hnamed : call.named = [] := by
      refine List.eq_nil_iff_forall_not_mem.mpr fun pair hpair => ?_
      have hknown := haccepts.known pair.1 (List.mem_map_of_mem hpair)
      rw [hnames] at hknown
      cases hknown
    refine .inl (congrArg Except.ok ?_)
    simp [Signature.layers, Signature.unnamed, Signature.defaults, hnames, hnamed, h]

/-- A line that calls a directive without parameters is replaced by its template or refused, if
nothing in the template is to be filled. -/
theorem lineOutcome_of_calls {definitions : List Definition}
    (hdistinct : (definitions.map (·.name)).Nodup) {definition : Definition}
    (hmem : definition ∈ definitions) (hparameters : definition.parameters = [])
    (hslots : ∀ name, ¬ HasSlot definition.template name) {line : Text}
    (h : Calls line definition.name) :
    lineOutcome definitions line = .replaced definition.template.lines ∨
      ∃ cause, lineOutcome definitions line = .failed cause := by
  obtain ⟨directive, inner, call, hwhole, hinner, hparse, hname⟩ := h
  have hfind := find?_eq_some_of_mem hdistinct hmem
  rw [← hname] at hfind
  have hcall := expandCall_of_parse hinner hparse hfind
  unfold lineOutcome
  rw [hwhole]
  dsimp only
  rw [hcall]
  rcases resolve_of_no_parameters hparameters call with hresolve | ⟨cause, hresolve⟩
  · rw [hresolve]
    simp only [bind, Except.bind, fill_of_noSlot hslots]
    exact .inl rfl
  · rw [hresolve]
    exact .inr ⟨cause, rfl⟩

end Directive

namespace Build

open Text Directive Page Run FileTree

/-- A directive without parameters that is defined between others is not used: no line of the text
is a call of its name, and its token does not stand in the expanded text when its turn comes. -/
structure Unused (front back : List Definition) (source : Option Text) (mode : ErrorMode)
    (text name : Text) : Prop where
  uncalled : ∀ line ∈ text.lines, ¬ Calls line name
  absent : ∀ expansion, expand (front ++ back) source mode text = .ok expansion →
    ¬ tokenOf name <:+: replaceAll (Definitions.ofDirectives front).tokens expansion.text

/-- Blanks at the end of the expanded text go anyway, since there are tokens, or it makes no
difference for its lines whether they go. -/
def EndsAlike (definitions : List Definition) (source : Option Text) (mode : ErrorMode)
    (text : Text) : Prop :=
  (Definitions.ofDirectives definitions).tokens ≠ [] ∨
    ∀ expansion, expand definitions source mode text = .ok expansion →
      lines (stripRight expansion.text) = lines expansion.text

section Insert

variable {front back : List Definition} {definition : Definition} {source : Option Text}
  {mode : ErrorMode} {text : Text}

theorem expand_insert (h : ∀ line ∈ text.lines, ¬ Calls line definition.name) :
    expand (front ++ definition :: back) source mode text =
      expand (front ++ back) source mode text :=
  expand_congr (fun line hline => lineOutcome_insert (h line hline)) source mode

theorem replaceAll_insert (hparameters : definition.parameters = []) (text : Text) :
    replaceAll (Definitions.ofDirectives (front ++ definition :: back)).tokens text =
      replaceAll (Definitions.ofDirectives back).tokens
        ((replaceAll (Definitions.ofDirectives front).tokens text).replace
          (tokenOf definition.name) definition.template) := by
  rw [tokens_insert hparameters, replaceAll_append, replaceAll_cons]

theorem addSections_congr {text other : Text} (h : lines text = lines other) :
    addSections text = addSections other := by
  unfold addSections
  rw [h]

/-- A directive that is not used makes no difference. -/
theorem enhance_insert (hparameters : definition.parameters = [])
    (hunused : Unused front back source mode text definition.name)
    (hends : EndsAlike (front ++ back) source mode text) :
    enhance (.ofDirectives (front ++ definition :: back)) source mode text =
      enhance (.ofDirectives (front ++ back)) source mode text := by
  have hexpand :
      expand (Definitions.ofDirectives (front ++ definition :: back)).directives source mode text =
        expand (front ++ back) source mode text := expand_insert hunused.uncalled
  unfold enhance
  rw [hexpand]
  have hdirectives : (Definitions.ofDirectives (front ++ back)).directives = front ++ back := rfl
  rw [hdirectives]
  cases hresult : expand (front ++ back) source mode text with
  | error error => rfl
  | ok expansion =>
    have hreplaced : replaceAll (Definitions.ofDirectives (front ++ definition :: back)).tokens
          expansion.text =
        replaceAll (Definitions.ofDirectives (front ++ back)).tokens expansion.text := by
      rw [replaceAll_insert hparameters, tokens_append, replaceAll_append,
        replace_of_absent _ (tokenOf_ne_nil _) (hunused.absent expansion hresult)]
    have hsome : (Definitions.ofDirectives (front ++ definition :: back)).tokens ≠ [] := by
      rw [tokens_insert hparameters]
      simp
    have hpage : addSections (substitute
          (Definitions.ofDirectives (front ++ definition :: back)).tokens expansion.text) =
        addSections
          (substitute (Definitions.ofDirectives (front ++ back)).tokens expansion.text) := by
      rw [substitute_eq, substitute_eq, if_neg hsome, hreplaced]
      split
      · rename_i hnone
        rw [hnone]
        exact addSections_congr ((hends.resolve_left (not_not.mpr hnone)) expansion hresult)
      · rfl
    unfold Except.map
    dsimp only
    rw [hpage]

end Insert

/-! ## Used directives -/

/-- Many lines that open the first page, each on its own. -/
def flood (count : Nat) : Text :=
  '\n' :: (List.replicate count (sectionOpening 1)).flatMap (· ++ ['\n'])

theorem openings_replicate (count : Nat) :
    openings (List.replicate count (sectionOpening 1)) = count := by
  have hopening : stripRight (sectionOpening 1) = sectionOpening 1 := by decide
  rw [openings, List.map_replicate, hopening, List.count_replicate_self]

theorem singleLine_of_mem_replicate {count : Nat} :
    ∀ line ∈ List.replicate count (sectionOpening 1), SingleLine line := by
  intro line hline
  rw [List.eq_of_mem_replicate hline]
  decide

theorem openings_lines_flood (count : Nat) : openings (lines (flood count)) = count := by
  rw [flood, ← List.nil_append ('\n' :: _), lines_append_lineFeed SingleLine.nil,
    lines_flatMap_lineFeed singleLine_of_mem_replicate, openings_cons, openings_replicate]
  have hblank : openings [[]] = 0 := by decide
  rw [hblank, Nat.zero_add]

theorem noSlot_flood (count : Nat) (name : Text) : ¬ HasSlot (flood count) name := by
  rintro ⟨-, hstands⟩
  have hdollar : '$' ∈ flood count := hstands.subset List.mem_cons_self
  rcases List.mem_cons.mp hdollar with hfeed | hdollar
  · exact absurd hfeed (by decide)
  · obtain ⟨line, hline, hmem⟩ := List.mem_flatMap.mp hdollar
    rw [List.eq_of_mem_replicate hline] at hmem
    exact absurd hmem (by decide)

/-- Tokens leave a flood as it is, whatever stands around it. -/
theorem le_openings_of_flood {rules : Bindings} (h : WithinLines rules)
    (hbracket : ∀ rule ∈ rules, '[' ∈ rule.1) (front back : Text) (count : Nat) :
    count ≤ openings (lines (replaceAll rules (front ++ (flood count ++ back)))) := by
  have hline : replaceAll rules (sectionOpening 1) = sectionOpening 1 := by
    refine replaceAll_of_absent h.ne_nil fun rule hrule hwithin => ?_
    exact absurd (hwithin.subset (hbracket rule hrule)) (by decide)
  have hlines : (List.replicate count (sectionOpening 1)).flatMap
      (fun line => lines (line ++ ['\n'])) = List.replicate count (sectionOpening 1) := by
    have hclosed := lines_closed (List.replicate count (sectionOpening 1)) []
    rw [List.append_nil, lines_flatMap_lineFeed singleLine_of_mem_replicate, lines,
      List.append_nil] at hclosed
    exact hclosed.symm
  rw [flood, List.cons_append, replaceAll_append_lineFeed h,
    replaceAll_closed h, List.map_replicate,
    hline, lines_append_break, lines_closed, hlines, openings_append, openings_append,
    openings_replicate]
  omega

section Used

variable {front back : List Definition} {definition : Definition} {source : Option Text}
  {mode : ErrorMode} {text : Text}

theorem ne_name_of_nodup (h : ((front ++ definition :: back).map (·.name)).Nodup) :
    ∀ other ∈ front ++ back, other.name ≠ definition.name := by
  rw [List.map_append, List.map_cons, List.nodup_middle, ← List.map_append, List.nodup_cons] at h
  intro other hother hsame
  exact h.1 (hsame ▸ List.mem_map_of_mem hother)

/-- Lines that call a new name are kept without it. -/
theorem lineOutcome_of_calls_new (hnew : ∀ other ∈ front ++ back, other.name ≠ definition.name)
    {line : Text} (h : Calls line definition.name) : lineOutcome (front ++ back) line = .kept := by
  obtain ⟨directive, inner, call, hwhole, hinner, hparse, hname⟩ := h
  exact lineOutcome_of_undefined hwhole hinner hparse (hname ▸ hnew)

/-- A call that is refused is one more failure. -/
theorem countP_fails_lt (hnew : ∀ other ∈ front ++ back, other.name ≠ definition.name) {line : Text}
    (hline : line ∈ text.lines) (hcalls : Calls line definition.name) {cause : DirectiveError}
    (hfailed : lineOutcome (front ++ definition :: back) line = .failed cause) :
    text.lines.countP (fails (front ++ back)) <
      text.lines.countP (fails (front ++ definition :: back)) := by
  have hmore : ∀ other, fails (front ++ back) other = true →
      fails (front ++ definition :: back) other = true := by
    intro other hother
    unfold fails at hother ⊢
    by_cases hcall : Calls other definition.name
    · rw [lineOutcome_of_calls_new hnew hcall] at hother
      cases hother
    · rwa [lineOutcome_insert hcall]
  have hone : fails (front ++ back) line = false := by
    unfold fails
    rw [lineOutcome_of_calls_new hnew hcalls]
  have hother : fails (front ++ definition :: back) line = true :=
    (fails_eq_true_iff _).mpr ⟨cause, hfailed⟩
  obtain ⟨before, after, hsplit⟩ := List.append_of_mem hline
  have hbefore : before.countP (fails (front ++ back)) ≤
      before.countP (fails (front ++ definition :: back)) :=
    List.countP_mono_left fun other _ => hmore other
  have hafter : after.countP (fails (front ++ back)) ≤
      after.countP (fails (front ++ definition :: back)) :=
    List.countP_mono_left fun other _ => hmore other
  rw [hsplit, List.countP_append, List.countP_append, List.countP_cons, List.countP_cons,
    hone, hother]
  simp only [if_true, Bool.false_eq_true, if_false]
  omega

/-- If a directive is used whose template is a flood, the flood is found on the page. -/
theorem lt_openings_of_used
    (hnames : ∀ name ∈ (front ++ definition :: back).map (·.name), SingleLine name)
    (hdistinct : ((front ++ definition :: back).map (·.name)).Nodup)
    (hparameters : definition.parameters = []) {count : Nat}
    (htemplate : definition.template = flood count)
    (hused : ¬ Unused front back source mode text definition.name)
    (hfailures : failures (front ++ definition :: back) source text =
      failures (front ++ back) source text) {enhanced : Expansion}
    (h : enhance (.ofDirectives (front ++ definition :: back)) source mode text = .ok enhanced) :
    count < openings enhanced.text.lines := by
  by_cases hcalled : ∃ line ∈ text.lines, Calls line definition.name
  · obtain ⟨line, hline, hcalls⟩ := hcalled
    have hmem : definition ∈ front ++ definition :: back :=
      List.mem_append_right _ List.mem_cons_self
    rcases lineOutcome_of_calls hdistinct hmem hparameters (htemplate ▸ noSlot_flood count)
        hcalls with
      hreplaced | ⟨cause, hfailed⟩
    · rw [← List.zipIdx_map_fst 1 text.lines] at hline
      obtain ⟨⟨_, number⟩, hnumber, rfl⟩ := List.mem_map.mp hline
      have hle := openings_le_of_mem hnumber fun numbered =>
        contribution (front ++ definition :: back) source mode numbered.1 numbered.2
      have hlt := openings_contributions_lt (withinLines_ofDirectives hnames)
        (opening_mem_tokens _) h
      dsimp only at hle hreplaced
      rw [contribution_eq, hreplaced, htemplate] at hle
      dsimp only at hle
      rw [openings_lines_flood] at hle
      exact lt_of_le_of_lt hle hlt
    · have hcount := countP_fails_lt (ne_name_of_nodup hdistinct) hline hcalls hfailed
      rw [← length_failures _ source, ← length_failures _ source, hfailures] at hcount
      exact absurd hcount (Nat.lt_irrefl _)
  · have huncalled : ∀ line ∈ text.lines, ¬ Calls line definition.name := by
      simpa using hcalled
    obtain ⟨expansion, hexpand, hstands⟩ : ∃ expansion,
        expand (front ++ back) source mode text = .ok expansion ∧ tokenOf definition.name <:+:
          replaceAll (Definitions.ofDirectives front).tokens expansion.text := by
      by_contra hnone
      exact hused ⟨huncalled, fun expansion hexpand hstands => hnone ⟨expansion, hexpand, hstands⟩⟩
    have hlt := openings_replaceAll_lt ((expand_insert huncalled).trans hexpand) h
    obtain ⟨before, after, hreplace⟩ :=
      exists_replace_of_infix (tokenOf_ne_nil _) definition.template hstands
    rw [replaceAll_insert hparameters, hreplace, htemplate] at hlt
    rw [List.map_append, List.map_cons] at hnames
    have hrules := withinLines_ofDirectives
      (List.forall_mem_cons.mp (List.forall_mem_append.mp hnames).2).2
    exact lt_of_le_of_lt
      (le_openings_of_flood hrules (opening_mem_tokens back) before after count) hlt

/-- A directive that is used makes a difference with some template. -/
theorem exists_enhance_ne
    (hnames : ∀ name ∈ (front ++ definition :: back).map (·.name), SingleLine name)
    (hdistinct : ((front ++ definition :: back).map (·.name)).Nodup)
    (hparameters : definition.parameters = []) {enhanced : Expansion}
    (h : enhance (.ofDirectives (front ++ back)) source mode text = .ok enhanced)
    (hused : ¬ Unused front back source mode text definition.name) :
    ∃ template, enhance (.ofDirectives (front ++ { definition with template } :: back)) source mode
      text ≠ enhance (.ofDirectives (front ++ back)) source mode text := by
  let flooded : Definition := { definition with template := flood (openings enhanced.text.lines) }
  refine ⟨flooded.template, fun hsame => ?_⟩
  rw [h] at hsame
  have hflooded : (front ++ flooded :: back).map (·.name) =
      (front ++ definition :: back).map (·.name) := by
    rw [List.map_append, List.map_append]
    rfl
  have herrors : failures (front ++ flooded :: back) source text =
      failures (front ++ back) source text :=
    (errors_of_enhance hsame).symm.trans (errors_of_enhance h)
  have hparameters' : flooded.parameters = [] := hparameters
  exact Nat.lt_irrefl _ (lt_openings_of_used (hflooded ▸ hnames) (hflooded ▸ hdistinct)
    hparameters' rfl hused herrors hsame)

/-- A character of the name that is in none of the texts keeps the directive from being used. -/
theorem unused_of_foreign {c : Char} {name : Text} (hname : SingleLine name) (hc : c ∈ name)
    (h : Foreign c (front ++ back) source mode text) : Unused front back source mode text name where
  uncalled := by
    rintro line hline ⟨directive, inner, call, hwhole, hinner, hparse, rfl⟩
    have hlacks := lacks_of_parse (fun hmem => h.notSource (mem_of_mem_lines line hline
      (mem_of_wholeLine? hwhole c (mem_of_unbracket hinner c hmem)))) hparse
    exact hlacks.name hc
  absent := by
    intro expansion hexpand hstands
    have hfeed : c ≠ '\n' := by
      rintro rfl
      exact absurd (hname _ hc) (by decide)
    have htemplates : ∀ rule ∈ (Definitions.ofDirectives front).tokens, rule.1 ≠ [] ∧
        c ∉ rule.2 := by
      intro rule hrule
      obtain ⟨definition, hmem, rfl⟩ := List.mem_map.mp hrule
      exact ⟨tokenOf_ne_nil _, h.notTemplate definition
        (List.mem_append_left _ (List.mem_filter.mp hmem).1)⟩
    have htoken : c ∈ tokenOf name := List.mem_append_left _ (List.mem_append_right _ hc)
    rw [text_of_expand _ _ hexpand] at hstands
    exact not_mem_replaceAll (fun rule hrule => (htemplates rule hrule).1)
      (fun rule hrule => (htemplates rule hrule).2) (h.not_mem_assemble hfeed)
        (hstands.subset htoken)

end Used

/-! ## Written pages -/

/-- Enhancing the source writes the page, and reports so many failures. -/
def Writes (source target : Path) (mode : ErrorMode) (before : Workspace) (count : Nat)
    (page : Text) : Prop :=
  ∃ after, exec (enhanceFile source target mode) before = (.ok count, after) ∧
    after.tree.readText before.home target.route = .ok page

section Written

variable {source target : Path} {mode : ErrorMode} {old new : Workspace} {text : Text}
  {definitions extended : Definitions} {front back : List Definition} {definition : Definition}

theorem writes_iff (htarget : Writable target old.tree old.home) {count : Nat} {page : Text} :
    Writes source target mode old count page ↔
      ∃ expansion, enhancedAt source mode old.tree old.home = .ok expansion ∧
        expansion.errors.length = count ∧ expansion.text = page := by
  constructor
  · rintro ⟨after, hexec, hread⟩
    cases henhanced : enhancedAt source mode old.tree old.home with
    | error failure =>
      rw [enhanceFile_eq, exec_bind, exec_read] at hexec
      cases hfound : foundAt source old.tree old.home with
      | error failure =>
        rw [hfound] at hexec
        cases hexec
      | ok found =>
        rw [hfound] at hexec
        dsimp only at hexec
        rw [exec_bind, exec_read, henhanced] at hexec
        cases hexec
    | ok expansion =>
      obtain ⟨after', hexec', hread'⟩ := exists_exec_enhanceFile henhanced htarget
      obtain ⟨hcount, rfl⟩ := Prod.mk.inj (hexec.symm.trans hexec')
      exact ⟨expansion, rfl, (Except.ok.inj hcount).symm,
        (Except.ok.inj (hread.symm.trans hread')).symm⟩
  · rintro ⟨expansion, henhanced, rfl, rfl⟩
    exact exists_exec_enhanceFile henhanced htarget

theorem enhancedAt_eq_of_read (hsource : old.tree.readText old.home source.route = .ok text)
    (hdefinitions : definitionsAt old.tree old.home definitionsPath = .ok definitions)
    (mode : ErrorMode) :
    enhancedAt source mode old.tree old.home =
      (enhance definitions (some source.text) mode text).mapError .directive := by
  unfold enhancedAt
  rw [hsource, hdefinitions]
  rfl

/-- **A directive that is not used does not change a page.** Let one more directive without
parameters be defined, anywhere in a file of definitions. If it is not used, the page that is
written for a source and the number of failures stay the same, whatever its template. If a page is
written and the directive is used, some template makes a difference. It is not used if a character
of its name is in none of the texts that the page is put together from. -/
theorem unused_definition (hsource : old.tree.readText old.home source.route = .ok text)
    (hsource' : new.tree.readText new.home source.route = .ok text)
    (hdefinitions : definitionsAt old.tree old.home definitionsPath = .ok definitions)
    (hextended : definitionsAt new.tree new.home definitionsPath = .ok extended)
    (hdirectives : definitions.directives = front ++ back)
    (hinserted : extended.directives = front ++ definition :: back)
    (hparameters : definition.parameters = []) (htarget : Writable target old.tree old.home)
    (htarget' : Writable target new.tree new.home) (mode : ErrorMode) :
    (Unused front back (some source.text) mode text definition.name →
      EndsAlike (front ++ back) (some source.text) mode text → ∀ count page,
        Writes source target mode new count page ↔ Writes source target mode old count page) ∧
    (¬ Unused front back (some source.text) mode text definition.name →
      ∀ count page, Writes source target mode old count page → ∃ template,
        enhance (.ofDirectives (front ++ { definition with template } :: back))
          (some source.text) mode text ≠
        enhance (.ofDirectives (front ++ back)) (some source.text) mode text) ∧
    ∀ c ∈ definition.name, Foreign c (front ++ back) (some source.text) mode text →
      Unused front back (some source.text) mode text definition.name := by
  have hbefore : definitions = .ofDirectives (front ++ back) :=
    hdirectives ▸ (declared_of_definitionsAt hdefinitions).eq_ofDirectives
  have hafter : extended = .ofDirectives (front ++ definition :: back) :=
    hinserted ▸ (declared_of_definitionsAt hextended).eq_ofDirectives
  have hnames : ∀ name ∈ (front ++ definition :: back).map (·.name), SingleLine name := by
    intro name hname
    obtain ⟨other, hother, rfl⟩ := List.mem_map.mp hname
    exact (namesSingleLine_of_definitionsAt hextended other (hinserted ▸ hother)).1
  have hsame := enhancedAt_eq_of_read hsource hdefinitions mode
  have hsame' := enhancedAt_eq_of_read hsource' hextended mode
  refine ⟨fun hunused hends count page => ?_, fun hused count page hwrites => ?_,
    fun c hc hforeign => ?_⟩
  · rw [writes_iff htarget, writes_iff htarget', hsame, hsame', hbefore, hafter,
      enhance_insert hparameters hunused hends]
  · obtain ⟨expansion, henhanced, -, -⟩ := (writes_iff htarget).mp hwrites
    rw [hsame, hbefore, mapError_eq_ok_iff] at henhanced
    have hdistinct := hinserted ▸ (declared_of_definitionsAt hextended).distinct
    exact exists_enhance_ne hnames hdistinct hparameters henhanced hused
  · refine unused_of_foreign (hnames definition.name ?_) hc hforeign
    exact List.mem_map_of_mem (List.mem_append_right _ List.mem_cons_self)

end Written

/-- A sheet with two tokens, and one with another token between them. -/
def plainSheet : Workspace := sheet "[[A]] = a\n[[B]] = b\n" "[[A]] c\n[[B]]\n"

def extendedSheet : Workspace :=
  sheet "[[A]] = a\n[[note]] = [[A]]\n[[B]] = b\n" "[[A]] c\n[[B]]\n"

theorem foreign_plainSheet :
    Foreign 'n' [⟨⟨"A", []⟩, "a"⟩, ⟨⟨"B", []⟩, "b"⟩] (some "s.md") (.report false)
      "[[A]] c\n[[B]]\n" where
  notSource := by decide
  notTemplate := by
    intro definition hmem
    rcases List.mem_pair.mp hmem with rfl | rfl
    · decide
    · decide
  notDefault := by
    intro definition hmem parameter hparameter
    rcases List.mem_pair.mp hmem with rfl | rfl
    · cases hparameter
    · cases hparameter
  notNote := by
    intro hmode
    cases hmode

theorem unused_definition_plainSheet :
    Writable (Path.parse "o/s.md") plainSheet.tree [] ∧
      Writable (Path.parse "o/s.md") extendedSheet.tree [] ∧
      ∀ count page,
        Writes (Path.parse "s.md") (Path.parse "o/s.md") (.report false) extendedSheet count page ↔
          Writes (Path.parse "s.md") (Path.parse "o/s.md") (.report false) plainSheet
            count page := by
  have hsource : plainSheet.tree.readText plainSheet.home (Path.parse "s.md").route =
      .ok "[[A]] c\n[[B]]\n" := by decide +kernel
  have hsource' : extendedSheet.tree.readText extendedSheet.home (Path.parse "s.md").route =
      .ok "[[A]] c\n[[B]]\n" := by decide +kernel
  have hdefinitions : definitionsAt plainSheet.tree plainSheet.home definitionsPath =
      .ok (.ofDirectives ([⟨⟨"A", []⟩, "a"⟩] ++ [⟨⟨"B", []⟩, "b"⟩])) := by decide +kernel
  have hextended : definitionsAt extendedSheet.tree extendedSheet.home definitionsPath =
      .ok (.ofDirectives ([⟨⟨"A", []⟩, "a"⟩] ++ ⟨⟨"note", []⟩, "[[A]]"⟩ ::
        [⟨⟨"B", []⟩, "b"⟩])) := by
    decide +kernel
  have htarget : Writable (Path.parse "o/s.md") plainSheet.tree plainSheet.home :=
    ⟨_, _, rfl, rfl, rfl⟩
  have htarget' : Writable (Path.parse "o/s.md") extendedSheet.tree extendedSheet.home :=
    ⟨_, _, rfl, rfl, rfl⟩
  obtain ⟨hsame, -, hunused⟩ := unused_definition hsource hsource' hdefinitions hextended
    rfl rfl rfl htarget htarget' (.report false)
  exact ⟨htarget, htarget', hsame (hunused 'n' (by decide) foreign_plainSheet) (.inl (by decide))⟩

/-- A page with one line, without failures. -/
def singlePage (line : Text) : Except Failure Nat × Except ReadError (List Text) :=
  (.ok 0, .ok [sectionOpening 1, "", line, "", "</section>"])

/-- A directive can be used though its name is written nowhere: its token is put together from what
an earlier token leaves, or by a call of another directive, or a call gives its name in two
quotations. One that is not used still makes a difference if it is the only token, since blanks at
the end of the text then go. -/
theorem not_unused_by_name :
    (¬ ("name" : Text) <:+: "[[[[A]]ame]]" ∧ ¬ ("name" : Text) <:+: "n" ∧
      sheetLines "[[A]] = n" "[[[[A]]ame]]" = singlePage "[[name]]" ∧
      sheetLines "[[A]] = n\n[[name]] = z" "[[[[A]]ame]]" = singlePage "z") ∧
    (¬ ("name" : Text) <:+: "[[N, na]]" ∧ ¬ ("name" : Text) <:+: "[[$\x7bx\x7dme]]" ∧
      sheetLines "[[N, x]] = [[$\x7bx\x7dme]]" "[[N, na]]" = singlePage "[[name]]" ∧
      sheetLines "[[N, x]] = [[$\x7bx\x7dme]]\n[[name]] = z" "[[N, na]]" = singlePage "z") ∧
    (¬ ("name" : Text) <:+: "[[\"na\"\"me\"]]" ∧
      sheetLines "" "[[\"na\"\"me\"]]" = singlePage "[[\"na\"\"me\"]]" ∧
      sheetLines "[[name]] = z" "[[\"na\"\"me\"]]" = singlePage "z") ∧
    (¬ ("name" : Text) <:+: "a\n\n\n" ∧
      sheetLines "" "a\n\n\n" =
        (.ok 0, .ok [sectionOpening 1, "", "a", "", "", "", "</section>"]) ∧
      sheetLines "[[name]] = z" "a\n\n\n" = singlePage "a") := by
  refine ⟨⟨?_, ?_, ?_, ?_⟩, ⟨?_, ?_, ?_, ?_⟩, ⟨?_, ?_, ?_⟩, ?_, ?_, ?_⟩ <;> decide +kernel

end Build

end Folio
