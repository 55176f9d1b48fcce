import Folio.Proofs.Directive.ErrorModes
import Folio.Proofs.Directive.Resolution
import Folio.Proofs.Text.FirstLine

/-!
# Where the characters of an expanded text come from

Reading a call decodes quotes and backslashes, but it puts no character into the name and the values
that is not in the text of the call (`lacks_of_parse`). A filled template has the characters of the
template and of the values (`not_mem_of_fill`), and values are those of the call and defaults. So a
character is not in an expanded text if it is neither in the source nor in a template, a default or
a note on a failure (`Foreign.not_mem_assemble`).
-/

namespace Folio.Directive

open Text

variable {c : Char}

/-! ## Calls -/

/-- A backslash that is kept has been read before. -/
theorem outcome_scanItems_not_mem {state : Quotation} {begun text : Text} (hbegun : c ∉ begun)
    (htext : c ∉ text) (hescaped : state = .escaped → c ≠ '\\') :
    Outcome (scanItems state begun text) (∀ item ∈ ·, c ∉ item) (fun _ => True) := by
  have hclose {item : Text} (hitem : c ∉ item) :
      Outcome (closeItem item.reverse) (c ∉ ·) (fun _ => True) := by
    unfold closeItem
    dsimp only
    split
    · exact .error trivial
    · exact .ok fun hmem => hitem (List.mem_reverse.mp (mem_of_mem_strip hmem))
  have hcons {d : Char} {rest : Text} (h : c ∉ d :: rest) : c ≠ d ∧ c ∉ rest :=
    not_or.mp (mt List.mem_cons.mpr h)
  have hadd {d : Char} {rest : Text} (hd : c ≠ d) (hrest : c ∉ rest) : c ∉ d :: rest :=
    mt List.mem_cons.mp (not_or.mpr ⟨hd, hrest⟩)
  have houtside : Quotation.outside = .escaped → c ≠ '\\' := by
    intro hstate
    cases hstate
  have hquoted : Quotation.quoted = .escaped → c ≠ '\\' := by
    intro hstate
    cases hstate
  fun_induction scanItems state begun text with
  | case1 begun => exact (hclose hbegun).map fun item hitem => by simpa using hitem
  | case2 | case3 => exact .error trivial
  | case4 begun rest ih => exact ih hbegun (hcons htext).2 hquoted
  | case5 begun rest e hclosed => exact .error trivial
  | case6 begun rest closed hclosed _ ih =>
    refine (ih List.not_mem_nil (hcons htext).2 houtside).map fun items hitems => ?_
    exact List.forall_mem_cons.mpr ⟨(hclose hbegun).1 closed hclosed, hitems⟩
  | case7 begun d rest hquote hcomma ih =>
    exact ih (hadd (hcons htext).1 hbegun) (hcons htext).2 houtside
  | case8 begun rest ih => exact ih hbegun (hcons htext).2 fun _ => (hcons htext).1
  | case9 begun rest hslash ih => exact ih hbegun (hcons htext).2 houtside
  | case10 begun d rest hslash hquote ih =>
    exact ih (hadd (hcons htext).1 hbegun) (hcons htext).2 hquoted
  | case11 begun d rest ih =>
    have hunescaped : c ∉ unescape d := by
      unfold unescape
      split
      · exact hadd (hcons htext).1 List.not_mem_nil
      · exact hadd (hescaped rfl) (hadd (hcons htext).1 List.not_mem_nil)
    refine ih (fun hmem => ?_) (hcons htext).2 hquoted
    rcases List.mem_append.mp hmem with hmem | hmem
    · exact hunescaped (List.mem_reverse.mp hmem)
    · exact hbegun hmem

/-- The name and the values of the call do not have the character. -/
structure Call.Lacks (c : Char) (call : Call) : Prop where
  name : c ∉ call.name
  positional : ∀ value ∈ call.positional, c ∉ value
  named : ∀ pair ∈ call.named, c ∉ pair.2

theorem outcome_addArgument_lacks {inner item : Text} {call : Call} (hitem : c ∉ item)
    (hcall : call.Lacks c) :
    Outcome (call.addArgument inner item) (·.Lacks c) (fun _ => True) := by
  unfold Call.addArgument
  split
  · rename_i left right hcut
    have hright : c ∉ right.strip := fun hmem =>
      hitem (mem_of_cutAt hcut c (List.mem_append_right _ (mem_of_mem_strip hmem)))
    dsimp only
    split_ifs
    · exact .error trivial
    · exact .error trivial
    · exact .error trivial
    · refine .ok ⟨hcall.name, hcall.positional, List.forall_mem_append.mpr ⟨hcall.named, ?_⟩⟩
      exact List.forall_mem_singleton.mpr hright
  · refine .ok ⟨hcall.name, List.forall_mem_append.mpr ⟨hcall.positional, ?_⟩, hcall.named⟩
    exact List.forall_mem_singleton.mpr hitem

theorem lacks_of_parse {inner : Text} {call : Call} (hinner : c ∉ inner)
    (h : Call.parse inner = .ok call) : call.Lacks c := by
  have houtcome : Outcome (Call.parse inner) (·.Lacks c) (fun _ => True) := by
    have hitems : Outcome (items inner) (∀ item ∈ ·, c ∉ item) (fun _ => True) := by
      refine outcome_scanItems_not_mem List.not_mem_nil hinner fun hstate => ?_
      cases hstate
    unfold Call.parse
    refine hitems.bind ?_
    intro parts hparts
    cases parts with
    | nil => exact .error trivial
    | cons first rest =>
      obtain ⟨hfirst, hrest⟩ := List.forall_mem_cons.mp hparts
      dsimp only
      split
      · exact .error trivial
      · refine .foldlM ⟨fun hmem => hfirst (mem_of_mem_strip hmem), ?_, ?_⟩ ?_
        · exact fun value hvalue => absurd hvalue List.not_mem_nil
        · exact fun pair hpair => absurd hpair List.not_mem_nil
        · exact fun item hitem call hcall => outcome_addArgument_lacks (hrest item hitem) hcall
  exact houtcome.1 call h

/-! ## Filled templates -/

theorem not_mem_of_resolve {signature : Signature} {call : Call} {bindings : Bindings}
    (hcall : call.Lacks c)
    (hdefaults : ∀ parameter ∈ signature.parameters, ∀ default ∈ parameter.default?, c ∉ default)
    (h : signature.resolve call = .ok bindings) : ∀ pair ∈ bindings, c ∉ pair.2 := by
  unfold Signature.resolve at h
  dsimp only at h
  split_ifs at h
  obtain rfl := Except.ok.inj h
  refine List.forall_mem_append.mpr ⟨List.forall_mem_append.mpr ⟨hcall.named, ?_⟩, ?_⟩
  · intro pair hpair
    exact hcall.positional pair.2 (List.of_mem_zip hpair).2
  · intro pair hpair
    obtain ⟨parameter, hparameter, hmap⟩ := List.mem_filterMap.mp (List.mem_reverse.mp hpair)
    obtain ⟨default, hdefault, rfl⟩ := Option.map_eq_some_iff.mp hmap
    exact hdefaults parameter hparameter default hdefault

theorem mem_of_literal_mem {template : Text} {d : Char} (h : .literal d ∈ pieces template) :
    d ∈ template := by
  have hreads := reads_pieces template
  generalize pieces template = ps at hreads h
  induction hreads with
  | done => cases h
  | slot hname _ ih =>
    rcases List.mem_cons.mp h with hsame | h
    · cases hsame
    · exact List.mem_append_right _ (ih h)
  | literal hnone _ ih =>
    rcases List.mem_cons.mp h with hsame | h
    · cases hsame
      exact List.mem_cons_self
    · exact List.mem_cons_of_mem _ (ih h)

theorem not_mem_of_fill {template text : Text} {bindings : Bindings} (htemplate : c ∉ template)
    (hbindings : ∀ pair ∈ bindings, c ∉ pair.2) (h : fill template bindings = .ok text) :
    c ∉ text := by
  obtain ⟨-, rfl⟩ := fill_eq_ok_iff.mp h
  intro hmem
  obtain ⟨piece, hpiece, hmem⟩ := List.mem_flatMap.mp hmem
  cases piece with
  | literal d =>
    obtain rfl := List.mem_singleton.mp hmem
    exact htemplate (mem_of_literal_mem hpiece)
  | slot name =>
    rw [Piece.filled] at hmem
    cases hvalue : bindings.get? name with
    | none =>
      rw [hvalue] at hmem
      cases hmem
    | some value =>
      rw [hvalue] at hmem
      obtain ⟨earlier, later, hsplit, -⟩ := List.lookup_eq_some_iff.mp hvalue
      exact hbindings (name, value) (hsplit ▸ List.mem_append_right _ List.mem_cons_self) hmem

/-! ## Expanded texts -/

/-- The character is in none of the texts that an expanded text is put together from. -/
structure Foreign (c : Char) (definitions : List Definition) (source : Option Text)
    (mode : ErrorMode) (text : Text) : Prop where
  notSource : c ∉ text
  notTemplate : ∀ definition ∈ definitions, c ∉ definition.template
  notDefault : ∀ definition ∈ definitions, ∀ parameter ∈ definition.parameters,
    ∀ default ∈ parameter.default?, c ∉ default
  /-- Notes on failures count only where they are put into the text. -/
  notNote : mode = .report true → ∀ error ∈ failures definitions source text,
    c ∉ embeddedNote error.place error.message

section Expanded

variable {definitions : List Definition} {source : Option Text} {mode : ErrorMode}
  {text line : Text}

theorem mem_of_wholeLine? {directive : Text} (h : wholeLine? line = some directive) :
    ∀ d ∈ directive, d ∈ line := by
  obtain ⟨rfl, -⟩ := wholeLine?_eq_some_iff.mp h
  exact fun d => mem_of_mem_strip

theorem mem_of_unbracket {directive inner : Text} (h : unbracket directive = .ok inner) :
    ∀ d ∈ inner, d ∈ directive := by
  unfold unbracket at h
  dsimp only at h
  split_ifs at h
  obtain rfl := Except.ok.inj h
  intro d hd
  exact mem_of_mem_strip (List.mem_of_mem_drop (List.mem_of_mem_take (mem_of_mem_strip hd)))

/-- What a call becomes has characters of its line, of templates and of defaults only. -/
theorem Foreign.not_mem_of_expandCall (h : Foreign c definitions source mode text)
    {directive : Text} (hdirective : c ∉ directive) {filled : Text}
    (hfilled : expandCall definitions directive = .ok (some filled)) : c ∉ filled := by
  unfold expandCall at hfilled
  obtain ⟨inner, hinner, hfilled⟩ := bind_eq_ok_iff.mp hfilled
  obtain ⟨call, hcall, hfilled⟩ := bind_eq_ok_iff.mp hfilled
  have hlacks := lacks_of_parse (fun hmem => hdirective (mem_of_unbracket hinner c hmem)) hcall
  split at hfilled
  · cases hfilled
  · rename_i definition hfind
    have hmem := List.mem_of_find?_eq_some hfind
    obtain ⟨bindings, hbindings, hfilled⟩ := bind_eq_ok_iff.mp hfilled
    obtain ⟨result, hresult, hfilled⟩ := bind_eq_ok_iff.mp hfilled
    obtain rfl := Option.some.inj (Except.ok.inj hfilled)
    exact not_mem_of_fill (h.notTemplate definition hmem)
      (not_mem_of_resolve hlacks (h.notDefault definition hmem) hbindings) hresult

theorem Foreign.not_mem_contribution (h : Foreign c definitions source mode text) {number : Nat}
    (hline : (line, number) ∈ text.lines.zipIdx 1) :
    ∀ other ∈ contribution definitions source mode line number, c ∉ other := by
  have hself : c ∉ line := fun hmem =>
    h.notSource (mem_of_mem_lines line (List.fst_mem_of_mem_zipIdx hline) hmem)
  have hkept : ∀ other ∈ [line], c ∉ other := List.forall_mem_singleton.mpr hself
  rw [contribution_eq]
  cases houtcome : lineOutcome definitions line with
  | kept => exact hkept
  | replaced ls =>
    obtain ⟨directive, filled, hwhole, hfilled, rfl⟩ := lineOutcome_eq_replaced_iff.mp houtcome
    have hdirective : c ∉ directive := fun hmem => hself (mem_of_wholeLine? hwhole c hmem)
    intro other hother hmem
    exact h.not_mem_of_expandCall hdirective hfilled (mem_of_mem_lines other hother hmem)
  | failed cause =>
    have hfailure : ⟨placeOf source number, cause⟩ ∈ failures definitions source text := by
      refine List.mem_filterMap.mpr ⟨(line, number), hline, ?_⟩
      dsimp only
      rw [failure?_eq, houtcome]
    dsimp only
    split
    · refine List.forall_mem_append.mpr ⟨fun other hother hmem => ?_, hkept⟩
      exact h.notNote rfl _ hfailure (mem_of_mem_lines other hother hmem)
    · exact hkept

theorem Foreign.not_mem_assemble (h : Foreign c definitions source mode text) (hfeed : c ≠ '\n') :
    c ∉ assemble definitions source mode text := by
  have hlines : ∀ line ∈ (text.lines.zipIdx 1).flatMap fun numbered =>
      contribution definitions source mode numbered.1 numbered.2, c ∉ line := by
    intro line hline
    obtain ⟨numbered, hmem, hline⟩ := List.mem_flatMap.mp hline
    exact h.not_mem_contribution hmem line hline
  have hjoined : ∀ d ∈ unlines ((text.lines.zipIdx 1).flatMap fun numbered =>
      contribution definitions source mode numbered.1 numbered.2), c ≠ d :=
    forall_mem_join (List.forall_mem_singleton.mpr hfeed) fun line hline d hd hsame =>
      hlines line hline (hsame ▸ hd)
  unfold assemble
  intro hmem
  rcases List.mem_append.mp hmem with hmem | hmem
  · exact hjoined c hmem rfl
  · split at hmem
    · exact hfeed (List.mem_singleton.mp hmem)
    · cases hmem

end Expanded

end Folio.Directive
