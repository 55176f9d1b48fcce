import Folio.Directive.Definitions
import Folio.Proofs.Directive.CallText
import Folio.Proofs.Files.Path
import Folio.Proofs.Outcome
import Mathlib.Data.List.Chain
import Mathlib.Data.List.Infix

/-!
# Writing definitions

The reader of definitions files has a writer beside it. A definition is written as a block: a line
with its signature, the lines of its template, and a line that closes the block. Blocks come one
after another, with blank lines and comments around them. Reading inverts writing:

* `parse_signatureText`: the signature is read back, its items in double quotes;
* `readLine_opening`: the first `]]` on the opening line is the one that closes the signature;
* `readLines_block`: the lines of the template are taken as they are, whatever they look like;
* `parse_definitionsText`: the whole file gives the definitions in their order.
-/

namespace Folio.Directive

open Text

/-! ## The writer -/

/-- A parameter as an item of a signature. -/
def Parameter.written (parameter : Parameter) : Argument :=
  match parameter.need with
  | .required => .positional parameter.name
  | .optional default => .named parameter.name (default.getD [])

def Signature.written (signature : Signature) : Text :=
  directiveText signature.name (signature.parameters.map (·.written))

/-- The lines of a definition. -/
def Definition.block (definition : Definition) : List Text :=
  (definition.toSignature.written ++ " = ```") ::
    (splitOn '\n' definition.template ++ [("```" : Text)])

/-- A blank line or a comment. -/
structure IsFiller (line : Text) : Prop where
  singleLine : line.SingleLine
  skipped : line.strip = [] ∨ line.strip.head? = some '#'

instance (line : Text) : Decidable (IsFiller line) :=
  decidable_of_iff (line.SingleLine ∧ (line.strip = [] ∨ line.strip.head? = some '#'))
    ⟨fun ⟨hline, hskipped⟩ => ⟨hline, hskipped⟩, fun h => ⟨h.singleLine, h.skipped⟩⟩

/-- The lines of a definitions file: a heading, and each definition with the lines behind it. -/
def definitionLines (heading : List Text) (entries : List (Definition × List Text)) : List Text :=
  heading ++ entries.flatMap fun entry => entry.1.block ++ entry.2

/-- A definitions file. An empty line at the end stands for a line feed at its end. -/
def definitionsText (heading : List Text) (entries : List (Definition × List Text)) : Text :=
  unlines (definitionLines heading entries)

/-- What these definitions give, read in this order. -/
def Definitions.ofDirectives (directives : List Definition) : Definitions where
  directives := directives
  tokens := (directives.filter (·.parameters = [])).map fun definition =>
    (tokenOf definition.name, definition.template)

/-! ## What can be written -/

/-- A text that can be an item of a signature. -/
structure Declarable (text : Text) : Prop where
  ne_nil : text ≠ []
  trimmed : text.Trimmed
  singleLine : text.SingleLine
  noClosing : ¬ [']', ']'] <:+: text

instance (text : Text) : Decidable (Declarable text) :=
  decidable_of_iff (text ≠ [] ∧ text.Trimmed ∧ text.SingleLine ∧ ¬ [']', ']'] <:+: text)
    ⟨fun ⟨hne, htrim, hline, hclosing⟩ => ⟨hne, htrim, hline, hclosing⟩,
      fun h => ⟨h.ne_nil, h.trimmed, h.singleLine, h.noClosing⟩⟩

/-- An optional parameter is written with its default, so there must be one. -/
def Need.IsDeclarable : Need → Prop
  | .required => True
  | .optional none => False
  | .optional (some default) => Declarable default

instance : (need : Need) → Decidable need.IsDeclarable
  | .required => isTrue trivial
  | .optional none => isFalse id
  | .optional (some default) => inferInstanceAs (Decidable (Declarable default))

structure Parameter.IsDeclarable (parameter : Parameter) : Prop where
  name : Declarable parameter.name
  noEquals : '=' ∉ parameter.name
  need : parameter.need.IsDeclarable

instance (parameter : Parameter) : Decidable parameter.IsDeclarable :=
  decidable_of_iff
    (Declarable parameter.name ∧ '=' ∉ parameter.name ∧ parameter.need.IsDeclarable)
    ⟨fun ⟨hname, hequals, hneed⟩ => ⟨hname, hequals, hneed⟩,
      fun h => ⟨h.name, h.noEquals, h.need⟩⟩

structure Signature.IsDeclarable (signature : Signature) : Prop where
  name : Declarable signature.name
  parameters : ∀ parameter ∈ signature.parameters, parameter.IsDeclarable
  distinct : (signature.parameters.map (·.name)).Nodup
  requiredFirst : signature.parameters.Pairwise fun first second =>
    second.isRequired = true → first.isRequired = true

instance (signature : Signature) : Decidable signature.IsDeclarable :=
  decidable_of_iff
    (Declarable signature.name ∧ (∀ parameter ∈ signature.parameters, parameter.IsDeclarable) ∧
      (signature.parameters.map (·.name)).Nodup ∧ signature.parameters.Pairwise fun first second =>
        second.isRequired = true → first.isRequired = true)
    ⟨fun ⟨hname, hparameters, hdistinct, hfirst⟩ => ⟨hname, hparameters, hdistinct, hfirst⟩,
      fun h => ⟨h.name, h.parameters, h.distinct, h.requiredFirst⟩⟩

structure Definition.IsDeclarable (definition : Definition) : Prop
    extends definition.toSignature.IsDeclarable where
  lineFeeds : ∀ c ∈ definition.template, isLineBreak c = true → c = '\n'
  unfenced : ("```" : Text) ∉ splitOn '\n' definition.template

instance (definition : Definition) : Decidable definition.IsDeclarable :=
  have : Decidable (∀ c ∈ definition.template, isLineBreak c = true → c = '\n') :=
    List.decidableBAll _ _
  decidable_of_iff
    (definition.toSignature.IsDeclarable ∧
      (∀ c ∈ definition.template, isLineBreak c = true → c = '\n') ∧
      ("```" : Text) ∉ splitOn '\n' definition.template)
    ⟨fun ⟨hsignature, hfeeds, hfence⟩ => ⟨hsignature, hfeeds, hfence⟩,
      fun h => ⟨h.toIsDeclarable, h.lineFeeds, h.unfenced⟩⟩

theorem Parameter.IsDeclarable.need_cases {parameter : Parameter} (h : parameter.IsDeclarable) :
    parameter.need = .required ∨
      ∃ default, parameter.need = .optional (some default) ∧ Declarable default := by
  obtain ⟨name, need⟩ := parameter
  rcases need with _ | _ | default
  · exact .inl rfl
  · exact absurd h.need id
  · exact .inr ⟨default, rfl, h.need⟩

/-! ## Closing brackets -/

/-- No two closing brackets stand side by side. -/
def Unclosed (text : Text) : Prop := text.IsChain fun c d => ¬ (c = ']' ∧ d = ']')

theorem Declarable.unclosed {text : Text} (h : Declarable text) : Unclosed text := by
  refine (List.isChain_isInfix text).imp ?_
  rintro c d hinfix ⟨rfl, rfl⟩
  exact h.noClosing hinfix

theorem Unclosed.append {text other : Text} (h : Unclosed text) (hother : Unclosed other)
    (hbetween : text.getLast? ≠ some ']' ∨ other.head? ≠ some ']') : Unclosed (text ++ other) := by
  refine List.IsChain.append h hother ?_
  rintro c hc d hd ⟨rfl, rfl⟩
  rcases hbetween with hlast | hhead
  · exact hlast hc
  · exact hhead hd

theorem unclosed_cons {c : Char} {text : Text} (hc : c ≠ ']') :
    Unclosed (c :: text) ↔ Unclosed text := by
  unfold Unclosed
  rw [List.isChain_cons]
  refine and_iff_right ?_
  rintro d - ⟨rfl, -⟩
  exact hc rfl

/-- A closing bracket is not escaped, and what escaping puts in is none. -/
theorem unclosed_escaped {text : Text} (h : Unclosed text) :
    Unclosed (text.flatMap escapeItemChar) ∧
      ((text.flatMap escapeItemChar).head? = some ']' → text.head? = some ']') := by
  induction text with
  | nil => exact ⟨h, fun hhead => hhead⟩
  | cons c rest ih =>
    have hsplit := List.isChain_cons.mp h
    obtain ⟨hrest, hhead⟩ := ih hsplit.2
    rw [List.flatMap_cons]
    by_cases hescaped : c = '"' ∨ c = '\\'
    · have hesc : escapeItemChar c = ['\\', c] := by simp [escapeItemChar, hescaped]
      have hc : c ≠ ']' := by
        rintro rfl
        revert hescaped
        decide
      rw [hesc]
      refine ⟨?_, fun hslash => ?_⟩
      · exact (unclosed_cons (by decide)).mpr ((unclosed_cons hc).mpr hrest)
      · exact absurd hslash (by simp)
    · have hesc : escapeItemChar c = [c] := by simp [escapeItemChar, hescaped]
      rw [hesc]
      refine ⟨?_, fun hc => hc⟩
      refine List.isChain_cons.mpr ⟨?_, hrest⟩
      rintro d hd ⟨rfl, rfl⟩
      exact hsplit.1 ']' (hhead hd) ⟨rfl, rfl⟩

theorem unclosed_quoteItem {item : Text} (h : Unclosed item) : Unclosed (quoteItem item) := by
  refine (unclosed_cons (by decide)).mpr ?_
  exact (unclosed_escaped h).1.append (List.isChain_singleton _) (.inr (by decide))

theorem unclosed_join {items : List Text} (h : ∀ item ∈ items, Unclosed item) :
    Unclosed (join [','] (items.map quoteItem)) := by
  induction items with
  | nil => exact List.isChain_nil
  | cons first others ih =>
    obtain ⟨hfirst, hothers⟩ := List.forall_mem_cons.mp h
    cases others with
    | nil =>
      rw [List.map_singleton, join_singleton]
      exact unclosed_quoteItem hfirst
    | cons second others =>
      have hquoted := unclosed_quoteItem hfirst
      have hrest := ih hothers
      rw [List.map_cons] at hrest
      rw [List.map_cons, List.map_cons, join_cons_cons, List.append_assoc]
      refine hquoted.append ((unclosed_cons (by decide)).mpr hrest) (.inr ?_)
      simp

theorem Parameter.IsDeclarable.unclosed {parameter : Parameter} (h : parameter.IsDeclarable) :
    Unclosed parameter.written.text := by
  unfold Parameter.written
  rcases h.need_cases with hneed | ⟨default, hneed, hdefault⟩
  · rw [hneed]
    exact h.name.unclosed
  · rw [hneed]
    refine h.name.unclosed.append ?_ (.inr (by simp))
    exact (unclosed_cons (by decide)).mpr hdefault.unclosed

/-- The cut is made at the brackets behind a text that has none. -/
theorem cutAt_closing {text : Text} (h : Unclosed text) (hlast : text.getLast? ≠ some ']')
    (rest : Text) : (text ++ ']' :: ']' :: rest).cutAt [']', ']'] = some (text, rest) := by
  induction text with
  | nil => simp [cutAt]
  | cons c text ih =>
    obtain ⟨hfirst, htext⟩ := List.isChain_cons.mp h
    have hlast' : text.getLast? ≠ some ']' := by
      intro hclosing
      refine hlast ?_
      rw [List.getLast?_cons, hclosing]
      rfl
    have hnot : ¬ [']', ']'].isPrefixOf (c :: (text ++ ']' :: ']' :: rest)) = true := by
      rw [List.isPrefixOf_iff_prefix]
      intro hprefix
      obtain ⟨rfl, hnext⟩ := List.cons_prefix_cons.mp hprefix
      -- the second bracket would be the next character of the text, or the text ends with the first
      cases text with
      | nil => exact hlast rfl
      | cons d text =>
        have hd : ']' = d := (List.cons_prefix_cons.mp hnext).1
        exact hfirst d rfl ⟨rfl, hd.symm⟩
    rw [List.cons_append, cutAt, if_neg hnot, ih htext hlast']
    rfl

/-! ## Reading signatures -/

theorem trimmed_named {key value : Text} (hkey : Declarable key) (hvalue : Declarable value) :
    Trimmed (key ++ '=' :: value) := by
  obtain ⟨c, rest, rfl⟩ := List.exists_cons_of_ne_nil hkey.ne_nil
  refine ⟨fun d hd => hkey.trimmed.1 d hd, fun d hd => hvalue.trimmed.2 d ?_⟩
  rwa [List.getLast?_append_of_ne_nil _ (by simp), List.getLast?_cons_of_ne_nil hvalue.ne_nil] at hd

theorem Parameter.IsDeclarable.item {parameter : Parameter} (h : parameter.IsDeclarable) :
    parameter.written.text ≠ [] ∧ Trimmed parameter.written.text ∧
      SingleLine parameter.written.text := by
  unfold Parameter.written
  rcases h.need_cases with hneed | ⟨default, hneed, hdefault⟩
  · rw [hneed]
    exact ⟨h.name.ne_nil, h.name.trimmed, h.name.singleLine⟩
  · rw [hneed]
    refine ⟨by simp [Argument.text], trimmed_named h.name hdefault, ?_⟩
    exact h.name.singleLine.append (singleLine_cons.mpr ⟨by decide, hdefault.singleLine⟩)

/-- A parameter is declared behind others that do not have its name; if it is required, so are
they. -/
theorem declare_written (signature : Text) {declared : List Parameter} {parameter : Parameter}
    (h : parameter.IsDeclarable) (hnew : parameter.name ∉ declared.map (·.name))
    (horder : ∀ other ∈ declared, parameter.isRequired = true → other.isRequired = true) :
    declare signature declared parameter.written.text = .ok (declared ++ [parameter]) := by
  obtain ⟨name, need⟩ := parameter
  unfold declare Parameter.written
  rcases h.need_cases with hneed | ⟨default, hneed, hdefault⟩
  · obtain rfl : need = .required := hneed
    have hothers : ¬ declared.any (!·.isRequired) = true := by
      rw [List.any_eq_true]
      rintro ⟨other, hother, hoptional⟩
      rw [horder other hother rfl] at hoptional
      cases hoptional
    have hcut : (Argument.positional name).text.cutAt "=" = none :=
      Text.cutAt_eq_none_iff.mpr h.noEquals
    dsimp only
    rw [hcut]
    dsimp only
    rw [Argument.text, h.name.trimmed.strip_eq, if_neg h.name.ne_nil, if_neg hnew, if_neg hothers]
  · obtain rfl : need = .optional (some default) := hneed
    have hcut : (Argument.named name default).text.cutAt "=" = some (name, default) :=
      Text.cutAt_append default h.noEquals
    dsimp only [Option.getD_some]
    rw [hcut]
    dsimp only
    rw [h.name.trimmed.strip_eq, hdefault.trimmed.strip_eq, if_neg h.name.ne_nil, if_neg hnew,
      if_neg hdefault.ne_nil]

theorem foldlM_declare (signature : Text) (declared : List Parameter) {parameters : List Parameter}
    (h : ∀ parameter ∈ parameters, parameter.IsDeclarable)
    (hdistinct : ((declared ++ parameters).map (·.name)).Nodup)
    (horder : (declared ++ parameters).Pairwise fun first second =>
      second.isRequired = true → first.isRequired = true) :
    (parameters.map (·.written.text)).foldlM (declare signature) declared =
      .ok (declared ++ parameters) := by
  induction parameters generalizing declared with
  | nil => rw [List.append_nil]; rfl
  | cons parameter parameters ih =>
    obtain ⟨hparameter, hparameters⟩ := List.forall_mem_cons.mp h
    have hnew : parameter.name ∉ declared.map (·.name) := by
      intro hold
      rw [List.map_append, List.map_cons] at hdistinct
      exact (List.nodup_append.mp hdistinct).2.2 _ hold _ List.mem_cons_self rfl
    have hbefore : ∀ other ∈ declared, parameter.isRequired = true → other.isRequired = true :=
      fun other hother => (List.pairwise_append.mp horder).2.2 other hother parameter
        List.mem_cons_self
    have hmoved : declared ++ parameter :: parameters = declared ++ [parameter] ++ parameters := by
      simp
    rw [hmoved] at hdistinct horder ⊢
    rw [List.map_cons, List.foldlM_cons, declare_written signature hparameter hnew hbefore]
    exact ih (declared ++ [parameter]) hparameters hdistinct horder

theorem parse_signatureText {signature : Signature} (h : signature.IsDeclarable) :
    Signature.parse signature.written = .ok signature := by
  have hitems : items (callText signature.name (signature.parameters.map (·.written))) =
      .ok (signature.name :: signature.parameters.map (·.written.text)) := by
    unfold callText
    rw [List.map_map]
    refine items_quoteItem ?_
    intro item hitem
    rcases List.mem_cons.mp hitem with rfl | hitem
    · exact ⟨h.name.ne_nil, h.name.trimmed⟩
    · obtain ⟨parameter, hparameter, rfl⟩ := List.mem_map.mp hitem
      obtain ⟨hne, htrimmed, -⟩ := (h.parameters parameter hparameter).item
      exact ⟨hne, htrimmed⟩
  have hdeclared := foldlM_declare signature.written [] h.parameters h.distinct
    h.requiredFirst
  unfold Signature.parse
  rw [Signature.written, unbracket_directiveText]
  simp only [bind, Except.bind]
  rw [hitems]
  dsimp only
  rw [h.name.trimmed.strip_eq, if_neg h.name.ne_nil, ← Signature.written, hdeclared]
  rfl

/-! ## Reading lines -/

theorem singleLine_written {signature : Signature} (h : signature.IsDeclarable) :
    SingleLine signature.written := by
  have hcall : SingleLine (callText signature.name (signature.parameters.map (·.written))) := by
    refine forall_mem_callText (by decide) (by decide) (by decide) ?_
    intro item hitem
    rcases List.mem_cons.mp hitem with rfl | hitem
    · exact h.name.singleLine
    · rw [List.map_map] at hitem
      obtain ⟨parameter, hparameter, rfl⟩ := List.mem_map.mp hitem
      exact (h.parameters parameter hparameter).item.2.2
  have hopen : SingleLine ['[', '['] := by decide
  have hclose : SingleLine [']', ']'] := by decide
  exact hopen.append (hcall.append hclose)

/-- The opening line is cut behind its signature, although there may be brackets in it. -/
theorem splitAssignment_opening {signature : Signature} (h : signature.IsDeclarable) :
    splitAssignment (signature.written ++ " = ```") = .ok (signature.written, "```") := by
  have hunclosed : Unclosed (callText signature.name (signature.parameters.map (·.written))) := by
    refine unclosed_join ?_
    intro item hitem
    rcases List.mem_cons.mp hitem with rfl | hitem
    · exact h.name.unclosed
    · rw [List.map_map] at hitem
      obtain ⟨parameter, hparameter, rfl⟩ := List.mem_map.mp hitem
      exact (h.parameters parameter hparameter).unclosed
  generalize hcall : callText signature.name (signature.parameters.map (·.written)) = call
    at hunclosed
  have hwritten : signature.written = '[' :: '[' :: (call ++ [']', ']']) := by
    rw [Signature.written, directiveText, hcall]
  have hlast : ('[' :: '[' :: call).getLast? ≠ some ']' := by
    obtain ⟨middle, hmiddle⟩ := exists_callText_eq signature.name
      (signature.parameters.map (·.written))
    rw [← hcall, hmiddle]
    simp [List.getLast?_cons]
  have hopened : Unclosed ('[' :: '[' :: call) :=
    (unclosed_cons (by decide)).mpr ((unclosed_cons (by decide)).mpr hunclosed)
  have hcut : (signature.written ++ " = ```").cutAt "]]" =
      some ('[' :: '[' :: call, (" = ```" : Text)) := by
    rw [hwritten]
    simpa using cutAt_closing hopened hlast " = ```"
  have hstrip : strip ('[' :: '[' :: call ++ "]]") = signature.written := by
    have htrimmed := strip_directiveText signature.name (signature.parameters.map (·.written))
    rw [← Signature.written, hwritten] at htrimmed
    rw [hwritten]
    exact htrimmed
  unfold splitAssignment
  rw [hcut]
  dsimp only
  rw [hstrip]
  rfl

section Reading

variable {ε : Type} {load : Text → Except (IncludeError ε) Text} {source : Text}

theorem readLine_filler {place line : Text} (h : IsFiller line) (definitions : Definitions) :
    readLine load place line definitions = .ok (definitions, none) := by
  unfold readLine
  dsimp only
  rw [if_pos]
  · rfl
  · simpa using h.skipped

theorem readLine_opening {signature : Signature} (h : signature.IsDeclarable) (place : Text)
    (definitions : Definitions) :
    readLine load place (signature.written ++ " = ```") definitions =
      .ok (definitions, some ⟨place, signature.written, signature, []⟩) := by
  have hstrip : strip (signature.written ++ " = ```") = signature.written ++ " = ```" := by
    refine Trimmed.strip_eq ⟨?_, ?_⟩
    · rintro c ⟨⟩
      decide
    · intro c hc
      rw [List.getLast?_append_of_ne_nil _ (by decide)] at hc
      obtain rfl := Option.some.inj hc
      decide
  have hhead : (signature.written ++ " = ```" : Text).head? = some '[' := rfl
  unfold readLine
  rw [hstrip]
  dsimp only
  rw [if_neg (by rw [hhead]; simp [Signature.written, directiveText]), splitAssignment_opening h]
  simp only [atPlace, bind, Except.bind, Except.mapError]
  rw [parse_signatureText h]
  rfl

theorem readLines_filler {filler : List Text} (h : ∀ line ∈ filler, IsFiller line) (number : Nat)
    (definitions : Definitions) (rest : List Text) :
    readLines load source number none definitions (filler ++ rest) =
      readLines load source (number + filler.length) none definitions rest := by
  induction filler generalizing number with
  | nil => rfl
  | cons line filler ih =>
    obtain ⟨hline, hfiller⟩ := List.forall_mem_cons.mp h
    rw [List.cons_append, readLines, readLine_filler hline]
    have hnumber : number + (line :: filler).length = number + 1 + filler.length := by
      rw [List.length_cons]
      omega
    rw [hnumber]
    exact ih hfiller (number + 1)

/-- Up to the closing line, the lines of a block are taken as they are. -/
theorem readLines_block {body : List Text} (h : ("```" : Text) ∉ body) (number : Nat)
    (block : OpenBlock) (definitions : Definitions) (rest : List Text) :
    readLines load source number (some block) definitions (body ++ ("```" : Text) :: rest) =
      atPlace block.place (definitions.add
        { block.signature with template := unlines (block.lines ++ body) }) >>= fun definitions =>
          readLines load source (number + body.length + 1) none definitions rest := by
  induction body generalizing number block with
  | nil => rw [List.nil_append, readLines, if_pos rfl, List.append_nil]; rfl
  | cons line body ih =>
    obtain ⟨hline, hbody⟩ := not_or.mp (mt List.mem_cons.mpr h)
    have hnumber : number + (line :: body).length + 1 = number + 1 + body.length + 1 := by
      rw [List.length_cons]
      omega
    rw [List.cons_append, readLines, if_neg (Ne.symm hline), ih hbody, hnumber, List.append_assoc]
    rfl

/-- A line feed at the end of a file changes nothing, also if a block is not closed. -/
theorem readLines_concat_nil (lines : List Text) (number : Nat) (block : Option OpenBlock)
    (definitions : Definitions) :
    readLines load source number block definitions (lines ++ [[]]) =
      readLines load source number block definitions lines := by
  induction lines generalizing number block definitions with
  | nil =>
    cases block with
    | none => rfl
    | some block => rfl
  | cons line lines ih =>
    cases block with
    | none =>
      rw [List.cons_append, readLines, readLines]
      simp only [ih]
    | some block =>
      rw [List.cons_append, readLines, readLines]
      simp only [ih]

/-- Single lines that are put together are read one after another. -/
theorem parse_unlines {lines : List Text} (h : ∀ line ∈ lines, SingleLine line) :
    Definitions.parse load source (unlines lines) = readLines load source 1 none {} lines := by
  unfold Definitions.parse
  rcases List.eq_nil_or_concat' lines with rfl | ⟨front, last, rfl⟩
  · rfl
  · by_cases hlast : last = []
    · rw [hlast] at h ⊢
      have hfront : ∀ line ∈ front, SingleLine line :=
        fun line hline => h line (List.mem_append_left _ hline)
      rw [lines_unlines hfront, readLines_concat_nil]
    · rw [lines_unlines_concat h hlast]

/-! ## Reading definitions -/

theorem tokenOf_injective : Function.Injective tokenOf := by
  intro name other h
  unfold tokenOf at h
  exact List.append_cancel_left (List.append_cancel_right h)

/-- A definition with a new name is added behind the others. -/
theorem add_ofDirectives {directives : List Definition} {definition : Definition}
    (hnew : definition.name ∉ directives.map (·.name)) :
    (Definitions.ofDirectives directives).add definition =
      .ok (.ofDirectives (directives ++ [definition])) := by
  have hname : ¬ (directives.any (·.name == definition.name)) = true := by
    rw [List.any_eq_true]
    rintro ⟨other, hother, hsame⟩
    exact hnew (List.mem_map.mpr ⟨other, hother, eq_of_beq hsame⟩)
  have htoken : (Definitions.ofDirectives directives).tokens.get? (tokenOf definition.name) =
      none := by
    unfold Bindings.get?
    rw [List.lookup_eq_none_iff]
    intro pair hpair
    obtain ⟨other, hother, rfl⟩ := List.mem_map.mp hpair
    rw [bne_iff_ne]
    intro hsame
    exact hnew (List.mem_map.mpr
      ⟨other, List.mem_of_mem_filter hother, (tokenOf_injective hsame).symm⟩)
  unfold Definitions.add
  dsimp only
  rw [htoken, Definitions.ofDirectives]
  dsimp only
  rw [if_neg hname]
  by_cases hparameters : definition.parameters = []
  · rw [if_neg (not_not_intro hparameters)]
    simp [Definitions.ofDirectives, hparameters]
  · rw [if_pos hparameters]
    simp [Definitions.ofDirectives, hparameters]

theorem readLines_definition (load : Text → Except (IncludeError ε) Text) (source : Text)
    {definition : Definition} {filler : List Text}
    (h : definition.IsDeclarable) (hfiller : ∀ line ∈ filler, IsFiller line)
    {directives : List Definition} (hnew : definition.name ∉ directives.map (·.name))
    (number : Nat) (rest : List Text) :
    ∃ next, readLines load source number none (.ofDirectives directives)
        (definition.block ++ filler ++ rest) =
      readLines load source next none (.ofDirectives (directives ++ [definition])) rest := by
  have htemplate : unlines (splitOn '\n' definition.template) = definition.template :=
    join_splitOn '\n' definition.template
  refine ⟨number + 1 + (splitOn '\n' definition.template).length + 1 + filler.length, ?_⟩
  rw [List.append_assoc, Definition.block, List.cons_append, readLines,
    readLine_opening h.toIsDeclarable]
  simp only [bind, Except.bind]
  rw [List.append_assoc (splitOn '\n' definition.template), List.singleton_append,
    readLines_block h.unfenced]
  dsimp only
  rw [List.nil_append, htemplate, add_ofDirectives hnew]
  exact readLines_filler hfiller _ _ rest

/-- The definitions of a file are added one after another to those read before. -/
theorem readLines_entries {entries : List (Definition × List Text)}
    (h : ∀ entry ∈ entries, entry.1.IsDeclarable ∧ ∀ line ∈ entry.2, IsFiller line)
    (directives : List Definition)
    (hdistinct : ((directives ++ entries.map (·.1)).map (·.name)).Nodup) (number : Nat) :
    readLines load source number none (.ofDirectives directives)
        (entries.flatMap fun entry => entry.1.block ++ entry.2) =
      .ok (.ofDirectives (directives ++ entries.map (·.1))) := by
  induction entries generalizing directives number with
  | nil => rw [List.map_nil, List.append_nil, List.flatMap_nil, readLines]
  | cons entry entries ih =>
    obtain ⟨⟨hdefinition, hfiller⟩, hentries⟩ := List.forall_mem_cons.mp h
    have hmoved : directives ++ (entry :: entries).map (·.1) =
        directives ++ [entry.1] ++ entries.map (·.1) := by simp
    have hnew : entry.1.name ∉ directives.map (·.name) := by
      intro hold
      rw [List.map_append, List.map_cons, List.map_cons] at hdistinct
      exact (List.nodup_append.mp hdistinct).2.2 _ hold _ List.mem_cons_self rfl
    rw [hmoved] at hdistinct ⊢
    obtain ⟨next, hnext⟩ := readLines_definition load source hdefinition hfiller hnew number
      (entries.flatMap fun entry => entry.1.block ++ entry.2)
    rw [List.flatMap_cons, hnext]
    exact ih hentries (directives ++ [entry.1]) hdistinct next

theorem singleLine_of_mem_block {definition : Definition} (h : definition.IsDeclarable) :
    ∀ line ∈ definition.block, SingleLine line := by
  have hopening : SingleLine (" = ```" : Text) := singleLine_literal (by decide)
  have hclosing : SingleLine ("```" : Text) := singleLine_literal (by decide)
  refine List.forall_mem_cons.mpr ⟨(singleLine_written h.toIsDeclarable).append hopening, ?_⟩
  refine List.forall_mem_append.mpr ⟨?_, List.forall_mem_singleton.mpr hclosing⟩
  intro line hline c hc
  by_contra hbreak
  have hfeed := h.lineFeeds c (mem_of_mem_splitOn hline hc) (by simpa using hbreak)
  rw [hfeed] at hc
  exact not_mem_of_mem_splitOn hline hc

variable {heading : List Text} {entries : List (Definition × List Text)}

theorem singleLine_of_mem_definitionLines (hheading : ∀ line ∈ heading, IsFiller line)
    (h : ∀ entry ∈ entries, entry.1.IsDeclarable ∧ ∀ line ∈ entry.2, IsFiller line) :
    ∀ line ∈ definitionLines heading entries, SingleLine line := by
  refine List.forall_mem_append.mpr ⟨fun line hline => (hheading line hline).singleLine, ?_⟩
  intro line hline
  obtain ⟨entry, hentry, hline⟩ := List.mem_flatMap.mp hline
  obtain ⟨hdefinition, hfiller⟩ := h entry hentry
  rcases List.mem_append.mp hline with hline | hline
  · exact singleLine_of_mem_block hdefinition line hline
  · exact (hfiller line hline).singleLine

theorem parse_definitionsText (hheading : ∀ line ∈ heading, IsFiller line)
    (h : ∀ entry ∈ entries, entry.1.IsDeclarable ∧ ∀ line ∈ entry.2, IsFiller line)
    (hdistinct : ((entries.map (·.1)).map (·.name)).Nodup) :
    Definitions.parse load source (definitionsText heading entries) =
      .ok (.ofDirectives (entries.map (·.1))) := by
  rw [definitionsText, parse_unlines (singleLine_of_mem_definitionLines hheading h),
    definitionLines, readLines_filler hheading]
  exact readLines_entries h [] hdistinct (1 + heading.length)

end Reading

end Folio.Directive
