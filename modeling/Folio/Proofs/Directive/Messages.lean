import Folio.Directive.Expansion
import Folio.Proofs.Outcome
import Folio.Proofs.Text.Cuts
import Folio.Proofs.Directive.Template

/-!
# Messages of one line

The reports of a build are lines, so a message must not hold a line break. A message is made of
fixed words and of texts that it shows: names, items and the directive itself
(`DirectiveError.shown`). If these are single lines, so is the message (`singleLine_message`).

Every text that reading a directive takes out of a single line is a single line again. This is shown
for each reader, for its results and for the causes of its failures at once (`Outcome`), up to
`outcome_expandCall`.

What stands alone on a line, and how a line is replaced or fails, is told by
`wholeLine?_eq_some_iff`, `lineOutcome_eq_replaced_iff` and `lineOutcome_eq_failed_iff`.
-/

namespace Folio

open Text

/-! ## Numbers and quoted texts -/

namespace Text

theorem isLineBreak_digitChar : ∀ n : Nat, isLineBreak n.digitChar = false
  | 0 | 1 | 2 | 3 | 4 | 5 | 6 | 7 | 8 | 9 | 10 | 11 | 12 | 13 | 14 | 15 => by decide
  | n + 16 => by
    have hstar : (n + 16).digitChar = '*' := by simp
    rw [hstar]
    decide

theorem singleLine_toDigits {base : Nat} (hbase : 1 < base) (n : Nat) :
    SingleLine (Nat.toDigits base n) := by
  induction n using Nat.strongRecOn with
  | ind n ih =>
    have hdigit (m : Nat) : SingleLine [m.digitChar] :=
      singleLine_cons.mpr ⟨isLineBreak_digitChar m, SingleLine.nil⟩
    rw [Nat.toDigits_eq_if hbase]
    split
    · exact hdigit n
    · rename_i hle
      have hless : n / base < n := Nat.div_lt_self (by omega) hbase
      exact singleLine_append.mpr ⟨ih _ hless, hdigit _⟩

theorem singleLine_ofNat (n : Nat) : SingleLine (ofNat n) := singleLine_toDigits (by decide) n

theorem singleLine_hex (width n : Nat) : SingleLine (hex width n) := by
  refine singleLine_append.mpr ⟨?_, singleLine_toDigits (by decide) n⟩
  intro c hc
  obtain rfl := (List.mem_replicate.mp hc).2
  decide

theorem singleLine_escapeChar {quote c : Char} (hc : isLineBreak c = false) :
    SingleLine (escapeChar quote c) := by
  have hself : SingleLine [c] := singleLine_cons.mpr ⟨hc, SingleLine.nil⟩
  unfold escapeChar
  split
  · exact singleLine_cons.mpr ⟨by decide, hself⟩
  · split_ifs
    · exact singleLine_literal (by decide)
    · exact singleLine_literal (by decide)
    · exact singleLine_literal (by decide)
    · exact hself
    · exact singleLine_append.mpr ⟨singleLine_literal (by decide), singleLine_hex _ _⟩
    · exact singleLine_append.mpr ⟨singleLine_literal (by decide), singleLine_hex _ _⟩
    · exact singleLine_append.mpr ⟨singleLine_literal (by decide), singleLine_hex _ _⟩

theorem SingleLine.quoted {text : Text} (h : SingleLine text) : SingleLine text.quoted := by
  have hmark : isLineBreak (quoteMark text) = false := by
    unfold quoteMark
    split <;> decide
  refine singleLine_cons.mpr ⟨hmark, singleLine_append.mpr ⟨?_, ?_⟩⟩
  · intro c hc
    obtain ⟨d, hd, hcd⟩ := List.mem_flatMap.mp hc
    exact singleLine_escapeChar (h d hd) c hcd
  · exact singleLine_cons.mpr ⟨hmark, SingleLine.nil⟩

theorem singleLine_join {separator : Text} {texts : List Text} (hsep : SingleLine separator)
    (h : ∀ text ∈ texts, SingleLine text) : SingleLine (join separator texts) :=
  forall_mem_join hsep h

end Text

/-! ## Wordings -/

namespace DirectiveError

/-- The texts that the message of a cause shows. -/
def shown : DirectiveError → List Text
  | emptyItem | unclosedQuote => []
  | notDirective text | emptyDirective text => [text]
  | emptySignatureName signature | emptyParameter signature => [signature]
  | duplicateParameter name signature | emptyDefault name signature
  | requiredAfterOptional name signature => [name, signature]
  | emptyCallName call | emptyArgumentName call => [call]
  | emptyArgumentValue name call | duplicateArgument name call => [name, call]
  | unknownArguments directive names | missingArguments directive names => directive :: names
  | tooManyArguments directive _ _ => [directive]
  | unknownSlots names => names

/-- The message of the cause shows only single lines. -/
def Clear (cause : DirectiveError) : Prop := ∀ text ∈ cause.shown, SingleLine text

theorem singleLine_message {cause : DirectiveError} (h : cause.Clear) :
    SingleLine cause.message := by
  have hwords : ∀ words : List Text, (∀ text ∈ words, SingleLine text) →
      SingleLine (join ", " words) :=
    fun words hwords => singleLine_join (singleLine_literal (by decide)) hwords
  cases cause <;>
    simp only [Clear, shown, List.forall_mem_cons, List.not_mem_nil, false_imp_iff, implies_true,
      and_true] at h <;>
    unfold message
  case emptyItem | unclosedQuote => exact singleLine_literal (by decide)
  case notDirective | emptyDirective | emptySignatureName | emptyParameter =>
    exact (singleLine_literal (by decide)).append h.quoted
  case duplicateParameter | emptyDefault | requiredAfterOptional =>
    exact (((singleLine_literal (by decide)).append h.1.quoted).append
      (singleLine_literal (by decide))).append h.2.quoted
  case emptyCallName | emptyArgumentName =>
    exact ((singleLine_literal (by decide)).append h).append (singleLine_literal (by decide))
  case emptyArgumentValue | duplicateArgument =>
    exact ((((singleLine_literal (by decide)).append h.1.quoted).append
      (singleLine_literal (by decide))).append h.2).append (singleLine_literal (by decide))
  case unknownArguments | missingArguments =>
    exact (((singleLine_literal (by decide)).append h.1).append
      (singleLine_literal (by decide))).append (hwords _ h.2)
  case tooManyArguments =>
    exact ((((((singleLine_literal (by decide)).append h).append
      (singleLine_literal (by decide))).append (singleLine_ofNat _)).append
      (singleLine_literal (by decide))).append (singleLine_ofNat _)).append
      (singleLine_literal (by decide))
  case unknownSlots => exact (singleLine_literal (by decide)).append (hwords _ h)

/-- The text begins with a character that is not blank. -/
def Worded (text : Text) : Prop := ∃ c rest, text = c :: rest ∧ isBlank c = false

theorem Worded.append {text : Text} (h : Worded text) (other : Text) : Worded (text ++ other) := by
  obtain ⟨c, rest, rfl, hc⟩ := h
  exact ⟨c, rest ++ other, rfl, hc⟩

theorem worded_literal {c : Char} {rest : List Char} (hc : isBlank c = false) :
    Worded (String.ofList (c :: rest)).toList :=
  ⟨c, rest, String.toList_ofList, hc⟩

/-- Every message begins with a word, so trimming its beginning changes nothing. -/
theorem worded_message (cause : DirectiveError) : Worded cause.message := by
  cases cause <;> unfold message
  case emptyItem | unclosedQuote => exact worded_literal (by decide)
  case notDirective | emptyDirective | emptySignatureName | emptyParameter | unknownSlots =>
    exact (worded_literal (by decide)).append _
  case emptyCallName | emptyArgumentName =>
    exact ((worded_literal (by decide)).append _).append _
  case duplicateParameter | emptyDefault | requiredAfterOptional | unknownArguments |
      missingArguments =>
    exact (((worded_literal (by decide)).append _).append _).append _
  case emptyArgumentValue | duplicateArgument =>
    exact ((((worded_literal (by decide)).append _).append _).append _).append _
  case tooManyArguments =>
    exact ((((((worded_literal (by decide)).append _).append _).append _).append _).append
      _).append _

end DirectiveError

/-! ## Readers -/

namespace Directive

open DirectiveError

theorem outcome_unbracket {text : Text} (h : SingleLine text) :
    Outcome (unbracket text) SingleLine Clear := by
  have hinner : SingleLine (strip ((text.strip.drop 2).take (text.strip.length - 4))) := by
    refine SingleLine.strip fun c hc => h.strip c ?_
    exact List.mem_of_mem_drop (List.mem_of_mem_take hc)
  unfold unbracket
  dsimp only
  split
  · split
    · exact .error (by simpa [Clear, shown] using h)
    · exact .ok hinner
  · exact .error (by simpa [Clear, shown] using h)

theorem outcome_closeItem {item : Text} (h : SingleLine item) :
    Outcome (closeItem item) SingleLine Clear := by
  unfold closeItem
  dsimp only
  split
  · exact .error (by simp [Clear, shown])
  · exact .ok h.strip

/-- The characters of an item are characters of the text, or backslashes that were read before. -/
theorem outcome_scanItems {state : Quotation} {begun text : Text} (hbegun : SingleLine begun)
    (htext : SingleLine text) :
    Outcome (scanItems state begun text) (∀ item ∈ ·, SingleLine item) Clear := by
  have hreverse {item : Text} (hitem : SingleLine item) : SingleLine item.reverse :=
    fun c hc => hitem c (List.mem_reverse.mp hc)
  fun_induction scanItems state begun text with
  | case1 begun =>
    exact (outcome_closeItem (hreverse hbegun)).map (fun item hitem => by simpa using hitem)
  | case2 | case3 => exact .error (by simp [Clear, shown])
  | case4 begun rest ih => exact ih hbegun (singleLine_cons.mp htext).2
  | case5 begun rest e hclose =>
    exact .error ((outcome_closeItem (hreverse hbegun)).2 e hclose)
  | case6 begun rest closed hclose _ ih =>
    have hclosed := (outcome_closeItem (hreverse hbegun)).1 closed hclose
    refine (ih SingleLine.nil (singleLine_cons.mp htext).2).map ?_
    intro items hitems
    exact List.forall_mem_cons.mpr ⟨hclosed, hitems⟩
  | case7 begun c rest hquote hcomma ih =>
    obtain ⟨hc, hrest⟩ := singleLine_cons.mp htext
    exact ih (singleLine_cons.mpr ⟨hc, hbegun⟩) hrest
  | case8 begun rest ih => exact ih hbegun (singleLine_cons.mp htext).2
  | case9 begun rest hslash ih => exact ih hbegun (singleLine_cons.mp htext).2
  | case10 begun c rest hslash hquote ih =>
    obtain ⟨hc, hrest⟩ := singleLine_cons.mp htext
    exact ih (singleLine_cons.mpr ⟨hc, hbegun⟩) hrest
  | case11 begun c rest ih =>
    obtain ⟨hc, hrest⟩ := singleLine_cons.mp htext
    have hunescaped : SingleLine (unescape c) := by
      unfold unescape
      split
      · exact singleLine_cons.mpr ⟨hc, SingleLine.nil⟩
      · exact singleLine_cons.mpr ⟨by decide, singleLine_cons.mpr ⟨hc, SingleLine.nil⟩⟩
    exact ih ((hreverse hunescaped).append hbegun) hrest

theorem outcome_items {text : Text} (h : SingleLine text) :
    Outcome (items text) (∀ item ∈ ·, SingleLine item) Clear :=
  outcome_scanItems SingleLine.nil h

/-- The keys of the call are single lines. -/
def Call.KeysSingleLine (call : Call) : Prop := ∀ key ∈ call.named.map (·.1), SingleLine key

theorem outcome_addArgument {inner item : Text} {call : Call} (hinner : SingleLine inner)
    (hitem : SingleLine item) (hcall : call.KeysSingleLine) :
    Outcome (call.addArgument inner item) Call.KeysSingleLine Clear := by
  unfold Call.addArgument
  split
  · rename_i left right hcut
    obtain ⟨hleft, -⟩ := singleLine_of_cutAt hitem hcut
    have hkey := hleft.strip
    dsimp only
    split_ifs
    · exact .error (by simpa [Clear, shown] using hinner)
    · exact .error (by simpa [Clear, shown] using ⟨hkey, hinner⟩)
    · exact .error (by simpa [Clear, shown] using ⟨hkey, hinner⟩)
    · refine .ok ?_
      intro key hmem
      rw [List.map_append] at hmem
      rcases List.mem_append.mp hmem with hmem | hmem
      · exact hcall key hmem
      · obtain rfl : key = left.strip := by simpa using hmem
        exact hkey
  · exact .ok hcall

theorem outcome_parseCall {inner : Text} (hinner : SingleLine inner) :
    Outcome (Call.parse inner) Call.KeysSingleLine Clear := by
  unfold Call.parse
  refine (outcome_items hinner).bind ?_
  intro parts hparts
  cases parts with
  | nil => exact .error (by simpa [Clear, shown] using hinner)
  | cons first rest =>
    dsimp only
    split
    · exact .error (by simpa [Clear, shown] using hinner)
    · refine .foldlM (by simp [Call.KeysSingleLine]) ?_
      intro item hitem call hcall
      exact outcome_addArgument hinner (hparts item (List.mem_cons_of_mem _ hitem)) hcall

/-- The name and the names of the parameters are single lines. -/
def Signature.NamesSingleLine (signature : Signature) : Prop :=
  SingleLine signature.name ∧ ∀ name ∈ signature.names, SingleLine name

theorem outcome_resolve {signature : Signature} {call : Call}
    (hsignature : signature.NamesSingleLine) (hcall : call.KeysSingleLine) :
    Outcome (signature.resolve call) (fun _ => True) Clear := by
  obtain ⟨hname, hnames⟩ := hsignature
  unfold Signature.resolve
  dsimp only
  split_ifs
  · refine .error (List.forall_mem_cons.mpr ⟨hname, ?_⟩)
    intro key hkey
    exact hcall key (List.mem_filter.mp (mem_sortedSet.mp hkey)).1
  · exact .error (by simpa [Clear, shown] using hname)
  · refine .error (List.forall_mem_cons.mpr ⟨hname, ?_⟩)
    intro name hmissing
    obtain ⟨parameter, hparameter, rfl⟩ := List.mem_map.mp (List.mem_filter.mp hmissing).1
    exact hnames _ (List.mem_map.mpr ⟨parameter, (List.mem_filter.mp hparameter).1, rfl⟩)
  · exact .ok trivial

theorem isLineBreak_of_isNameChar {c : Char} (h : isNameChar c = true) : isLineBreak c = false := by
  unfold isNameChar isNameStart Char.isAlpha Char.isUpper Char.isLower Char.isDigit at h
  simp only [Bool.or_eq_true, Bool.and_eq_true, decide_eq_true_eq, beq_iff_eq, ge_iff_le,
    UInt32.le_iff_toNat_le] at h
  have hval : c.val.toNat = c.toNat := rfl
  simp only [isLineBreak, Bool.or_eq_false_iff, Bool.and_eq_false_iff, decide_eq_false_iff_not,
    beq_eq_false_iff_ne]
  have hunderscore : '_'.toNat = 95 := rfl
  rcases h with ((h | h) | rfl) | h
  · have h1 : 'A'.val.toNat = 65 := rfl
    have h2 : 'Z'.val.toNat = 90 := rfl
    omega
  · have h1 : 'a'.val.toNat = 97 := rfl
    have h2 : 'z'.val.toNat = 122 := rfl
    omega
  · omega
  · have h1 : '0'.val.toNat = 48 := rfl
    have h2 : '9'.val.toNat = 57 := rfl
    omega

theorem IsSlotName.singleLine {name : Text} (h : IsSlotName name) : SingleLine name := by
  obtain ⟨first, rest, rfl, hfirst, hrest⟩ := h
  refine singleLine_cons.mpr ⟨?_, fun c hc => isLineBreak_of_isNameChar (hrest c hc)⟩
  exact isLineBreak_of_isNameChar (by simp [isNameChar, hfirst])

theorem Reads.isSlotName {template : Text} {ps : List Piece} (h : Reads template ps) :
    ∀ name ∈ slotNames ps, IsSlotName name := by
  induction h with
  | done => simp [slotNames]
  | slot hname _ ih => exact List.forall_mem_cons.mpr ⟨hname, ih⟩
  | literal _ _ ih => exact ih

theorem outcome_fill (template : Text) (bindings : Bindings) :
    Outcome (fill template bindings) (fun _ => True) Clear := by
  unfold fill
  dsimp only
  split
  · refine .error ?_
    intro name hname
    have hslot := (List.mem_filter.mp (mem_sortedSet.mp hname)).1
    exact ((reads_pieces template).isSlotName name hslot).singleLine
  · exact .ok trivial

theorem outcome_expandCall {definitions : List Definition} {directive : Text}
    (hdefinitions : ∀ definition ∈ definitions, definition.NamesSingleLine)
    (hdirective : SingleLine directive) :
    Outcome (expandCall definitions directive) (fun _ => True) Clear := by
  unfold expandCall
  refine (outcome_unbracket hdirective).bind fun inner hinner => ?_
  refine (outcome_parseCall hinner).bind fun call hcall => ?_
  cases hfind : definitions.find? (·.name == call.name) with
  | none => exact .ok trivial
  | some definition =>
    have hnames := hdefinitions definition (List.mem_of_find?_eq_some hfind)
    refine (outcome_resolve hnames hcall).bind fun bindings _ => ?_
    exact (outcome_fill definition.template bindings).bind fun text _ => .ok trivial

/-! ## What a line becomes -/

section Lines

variable {definitions : List Definition} {line directive : Text} {cause : DirectiveError}

theorem wholeLine?_eq_some_iff : wholeLine? line = some directive ↔
    directive = line.strip ∧ ("[[" : Text) <+: directive ∧ ("]]" : Text) <:+ directive ∧
      (directive.drop 2).take (directive.length - 4) ≠ [] ∧
      ']' ∉ (directive.drop 2).take (directive.length - 4) := by
  unfold wholeLine?
  simp only [Option.ite_none_right_eq_some, Option.some.injEq, Bool.and_eq_true, decide_eq_true_eq,
    List.isPrefixOf_iff_prefix, List.isSuffixOf_iff_suffix, and_assoc]
  constructor
  · rintro ⟨hopening, hclosing, hne, hbracket, rfl⟩
    exact ⟨rfl, hopening, hclosing, hne, hbracket⟩
  · rintro ⟨rfl, hopening, hclosing, hne, hbracket⟩
    exact ⟨hopening, hclosing, hne, hbracket, rfl⟩

theorem lineOutcome_of_none (h : wholeLine? line = none) :
    lineOutcome definitions line = .kept := by
  unfold lineOutcome
  rw [h]

theorem lineOutcome_eq_replaced_iff {ls : List Text} : lineOutcome definitions line = .replaced ls ↔
    ∃ directive text, wholeLine? line = some directive ∧
      expandCall definitions directive = .ok (some text) ∧ text.lines = ls := by
  unfold lineOutcome
  constructor
  · intro h
    split at h
    · cases h
    · rename_i directive hwhole
      split at h
      · cases h
      · rename_i text hcall
        exact ⟨directive, text, hwhole, hcall, LineOutcome.replaced.inj h⟩
      · cases h
  · rintro ⟨directive, text, hwhole, hcall, rfl⟩
    rw [hwhole]
    dsimp only
    rw [hcall]

theorem lineOutcome_eq_failed_iff : lineOutcome definitions line = .failed cause ↔
    ∃ directive, wholeLine? line = some directive ∧
      expandCall definitions directive = .error cause := by
  unfold lineOutcome
  constructor
  · intro h
    split at h
    · cases h
    · rename_i directive hwhole
      split at h
      · cases h
      · cases h
      · rename_i cause hcall
        obtain rfl := LineOutcome.failed.inj h
        exact ⟨directive, hwhole, hcall⟩
  · rintro ⟨directive, hwhole, hcall⟩
    rw [hwhole]
    dsimp only
    rw [hcall]

/-- The cause for which a line fails shows single lines only. -/
theorem clear_of_failed (hdefinitions : ∀ definition ∈ definitions, definition.NamesSingleLine)
    (hline : SingleLine line) (h : lineOutcome definitions line = .failed cause) :
    cause.Clear := by
  obtain ⟨directive, hwhole, hexpand⟩ := lineOutcome_eq_failed_iff.mp h
  obtain ⟨rfl, -⟩ := wholeLine?_eq_some_iff.mp hwhole
  exact (outcome_expandCall hdefinitions hline.strip).2 cause hexpand

end Lines

end Directive

end Folio
