import Folio.Directive.Expansion
import Folio.Proofs.Text.Cuts
import Mathlib.Data.List.Basic

/-!
# Writing calls

The reader of calls has a writer beside it. Each argument is written as one item between double
quotes, with the double quotes and backslashes in it escaped; an argument given by name is the item
`key=value`. Reading inverts writing:

* `items_quoteItem`: quoted items that are trimmed and not empty are read back, whatever commas,
  quotes and backslashes they hold;
* `parse_callText`: the call is read back, with its arguments by position and by name in order;
* `wholeLine?_directiveText`, `unbracket_directiveText`: between double brackets the call is a
  directive that stands alone on its line.
-/

namespace Folio.Directive

/-! ## The writer -/

/-- A character of a quoted item. -/
def escapeItemChar (c : Char) : Text := if c = '"' || c = '\\' then ['\\', c] else [c]

/-- An item between double quotes. -/
def quoteItem (item : Text) : Text := '"' :: (item.flatMap escapeItemChar ++ ['"'])

/-- An argument of a call as it is meant. -/
inductive Argument where
  /-- A value given by its position. -/
  | positional (value : Text)
  /-- A value given by the name of its parameter. -/
  | named (key value : Text)
  deriving DecidableEq, Repr

namespace Argument

/-- The item of an argument. -/
def text : Argument → Text
  | positional value => value
  | named key value => key ++ '=' :: value

/-- The value of an argument given by its position. -/
def positional? : Argument → Option Text
  | positional value => some value
  | named _ _ => none

/-- The key and the value of an argument given by name. -/
def named? : Argument → Option (Text × Text)
  | positional _ => none
  | named key value => some (key, value)

end Argument

/-- The call that a name and arguments, in any order, make. -/
def Call.ofArguments (name : Text) (arguments : List Argument) : Call where
  name := name
  positional := arguments.filterMap (·.positional?)
  named := arguments.filterMap (·.named?)

/-- The text of a call between its brackets. -/
def callText (name : Text) (arguments : List Argument) : Text :=
  Text.join [','] ((name :: arguments.map (·.text)).map quoteItem)

/-- The text of a call. -/
def directiveText (name : Text) (arguments : List Argument) : Text :=
  '[' :: '[' :: (callText name arguments ++ [']', ']'])

/-- A text that can be written in a call and read back: it is not empty, has no blank at its ends,
and holds neither a closing bracket nor a line break. -/
structure Writable (text : Text) : Prop where
  ne_nil : text ≠ []
  trimmed : text.Trimmed
  noBracket : ']' ∉ text
  singleLine : text.SingleLine

instance (text : Text) : Decidable (Writable text) :=
  decidable_of_iff (text ≠ [] ∧ text.Trimmed ∧ ']' ∉ text ∧ text.SingleLine)
    ⟨fun ⟨hne, htrim, hbracket, hline⟩ => ⟨hne, htrim, hbracket, hline⟩,
      fun h => ⟨h.ne_nil, h.trimmed, h.noBracket, h.singleLine⟩⟩

/-- An argument that can be written. What stands before the first equals sign is taken for a key, so
a value by position has none, nor has a key. -/
def Argument.IsWritable : Argument → Prop
  | .positional value => Writable value ∧ '=' ∉ value
  | .named key value => Writable key ∧ '=' ∉ key ∧ Writable value

instance : (argument : Argument) → Decidable argument.IsWritable
  | .positional value => inferInstanceAs (Decidable (Writable value ∧ '=' ∉ value))
  | .named key value => inferInstanceAs (Decidable (Writable key ∧ '=' ∉ key ∧ Writable value))

/-! ## Reading quoted items -/

theorem scanItems_escaped (begun item rest : Text) :
    scanItems .quoted begun (item.flatMap escapeItemChar ++ rest) =
      scanItems .quoted (item.reverse ++ begun) rest := by
  induction item generalizing begun with
  | nil => rfl
  | cons c item ih =>
    rw [List.flatMap_cons, List.append_assoc]
    by_cases hc : c = '"' ∨ c = '\\'
    · have hesc : escapeItemChar c = ['\\', c] := by simp [escapeItemChar, hc]
      have hun : unescape c = [c] := by simp [unescape, hc]
      simp [hesc, scanItems, hun, ih]
    · have hesc : escapeItemChar c = [c] := by simp [escapeItemChar, hc]
      obtain ⟨hquote, hslash⟩ := not_or.mp hc
      simp [hesc, scanItems, hquote, hslash, ih]

/-- A quoted item is added, as it was before quoting, to what has been read of its item. -/
theorem scanItems_quoteItem (begun item rest : Text) :
    scanItems .outside begun (quoteItem item ++ rest) =
      scanItems .outside (item.reverse ++ begun) rest := by
  have hopen : scanItems .outside begun (quoteItem item ++ rest) =
      scanItems .quoted begun (item.flatMap escapeItemChar ++ '"' :: rest) := by
    simp [quoteItem, scanItems]
  rw [hopen, scanItems_escaped]
  simp [scanItems]

theorem closeItem_eq_ok {item : Text} (hne : item ≠ []) (htrim : item.Trimmed) :
    closeItem item = .ok item := by
  simp [closeItem, htrim.strip_eq, hne]

theorem items_quoteItem {first : Text} {others : List Text}
    (h : ∀ item ∈ first :: others, item ≠ [] ∧ item.Trimmed) :
    items (Text.join [','] ((first :: others).map quoteItem)) = .ok (first :: others) := by
  rw [items]
  induction others generalizing first with
  | nil =>
    obtain ⟨hne, htrim⟩ := h first (by simp)
    have hscan := scanItems_quoteItem [] first []
    simp only [List.append_nil] at hscan
    have hclose : scanItems .outside first.reverse [] = .ok [first] := by
      simp [scanItems, closeItem_eq_ok hne htrim, Except.map]
    rw [List.map_singleton, Text.join_singleton, hscan, hclose]
  | cons second others ih =>
    obtain ⟨hne, htrim⟩ := h first (by simp)
    have hrest := ih (fun item hitem => h item (List.mem_cons_of_mem _ hitem))
    rw [List.map_cons] at hrest
    rw [List.map_cons, List.map_cons, Text.join_cons_cons, List.append_assoc, scanItems_quoteItem,
      List.singleton_append, scanItems]
    simp [closeItem_eq_ok hne htrim, hrest, Except.map]

/-! ## Reading arguments -/

theorem addArgument_positional (inner : Text) (call : Call) {value : Text} (h : '=' ∉ value) :
    call.addArgument inner value = .ok { call with positional := call.positional ++ [value] } := by
  simp [Call.addArgument, Text.cutAt_eq_none_iff.mpr h]

theorem addArgument_named (inner : Text) (call : Call) {key value : Text} (hkey : Writable key)
    (hequals : '=' ∉ key) (hvalue : Writable value) (hnew : key ∉ call.named.map (·.1)) :
    call.addArgument inner (key ++ '=' :: value) =
      .ok { call with named := call.named ++ [(key, value)] } := by
  have hnew' : ∀ old, (key, old) ∉ call.named :=
    fun old hold => hnew (List.mem_map.mpr ⟨(key, old), hold, rfl⟩)
  simp [Call.addArgument, Text.cutAt_append value hequals, hkey.trimmed.strip_eq,
    hvalue.trimmed.strip_eq, hkey.ne_nil, hvalue.ne_nil, hnew']

/-- Adding the written arguments one after another; the invariant is that no key of them has been
given before. -/
theorem foldlM_addArgument (inner : Text) {arguments : List Argument} (call : Call)
    (hargs : ∀ argument ∈ arguments, argument.IsWritable)
    (hkeys : ((call.named ++ arguments.filterMap (·.named?)).map (·.1)).Nodup) :
    (arguments.map (·.text)).foldlM (Call.addArgument inner) call =
      .ok { call with
        positional := call.positional ++ arguments.filterMap (·.positional?)
        named := call.named ++ arguments.filterMap (·.named?) } := by
  induction arguments generalizing call with
  | nil => simp [pure, Except.pure]
  | cons argument arguments ih =>
    have hrest : ∀ other ∈ arguments, other.IsWritable :=
      fun other hother => hargs other (List.mem_cons_of_mem _ hother)
    rw [List.map_cons, List.foldlM_cons]
    cases argument with
    | positional value =>
      have hvalue : Writable value ∧ '=' ∉ value := hargs _ List.mem_cons_self
      rw [Argument.text, addArgument_positional inner call hvalue.2]
      have hstep := ih { call with positional := call.positional ++ [value] } hrest
        (by simpa [Argument.named?] using hkeys)
      simpa [bind, Except.bind, Argument.positional?, Argument.named?] using hstep
    | named key value =>
      obtain ⟨hkey, hequals, hvalue⟩ : Writable key ∧ '=' ∉ key ∧ Writable value :=
        hargs _ List.mem_cons_self
      have hnew : key ∉ call.named.map (·.1) := by
        intro hold
        have hdisjoint := (List.nodup_append.mp (by simpa [Argument.named?] using hkeys)).2.2
        exact hdisjoint key hold key (by simp) rfl
      rw [Argument.text, addArgument_named inner call hkey hequals hvalue hnew]
      have hstep := ih { call with named := call.named ++ [(key, value)] } hrest
        (by simpa [Argument.named?] using hkeys)
      simpa [bind, Except.bind, Argument.positional?, Argument.named?] using hstep

/-! ## Reading calls -/

theorem Argument.IsWritable.text_ne_nil {argument : Argument} (h : argument.IsWritable) :
    argument.text ≠ [] := by
  cases argument with
  | positional value => exact h.1.ne_nil
  | named key value => simp [Argument.text]

theorem Argument.IsWritable.text_trimmed {argument : Argument} (h : argument.IsWritable) :
    argument.text.Trimmed := by
  cases argument with
  | positional value => exact h.1.trimmed
  | named key value =>
    obtain ⟨hkey, -, hvalue⟩ := h
    obtain ⟨c, rest, rfl⟩ := List.exists_cons_of_ne_nil hkey.ne_nil
    refine ⟨fun d hd => hkey.trimmed.1 d hd, fun d hd => hvalue.trimmed.2 d ?_⟩
    -- the last character of the item is that of the value, since the value is not empty
    rwa [Argument.text, List.getLast?_append_of_ne_nil _ (by simp),
      List.getLast?_cons_of_ne_nil hvalue.ne_nil] at hd

theorem parse_callText {name : Text} {arguments : List Argument} (hname : Writable name)
    (hargs : ∀ argument ∈ arguments, argument.IsWritable)
    (hkeys : ((arguments.filterMap (·.named?)).map (·.1)).Nodup) :
    Call.parse (callText name arguments) = .ok (Call.ofArguments name arguments) := by
  have hitems : items (callText name arguments) = .ok (name :: arguments.map (·.text)) := by
    refine items_quoteItem ?_
    intro item hitem
    rcases List.mem_cons.mp hitem with rfl | hitem
    · exact ⟨hname.ne_nil, hname.trimmed⟩
    · obtain ⟨argument, hargument, rfl⟩ := List.mem_map.mp hitem
      exact ⟨(hargs argument hargument).text_ne_nil, (hargs argument hargument).text_trimmed⟩
  have hfold := foldlM_addArgument (callText name arguments) { name } hargs (by simpa using hkeys)
  simp [Call.parse, hitems, bind, Except.bind, hname.trimmed.strip_eq, hname.ne_nil, hfold,
    Call.ofArguments]

/-! ## Calls as directives -/

/-- What holds of the marks and of every character of the items holds of every character of the
call. -/
theorem forall_mem_callText {P : Char → Prop} {name : Text} {arguments : List Argument}
    (hcomma : P ',') (hquote : P '"') (hslash : P '\\')
    (h : ∀ item ∈ name :: arguments.map (·.text), ∀ c ∈ item, P c) :
    ∀ c ∈ callText name arguments, P c := by
  refine Text.forall_mem_join (by simpa using hcomma) ?_
  intro text htext c hc
  obtain ⟨item, hitem, rfl⟩ := List.mem_map.mp htext
  simp only [quoteItem, List.mem_cons, List.mem_append, List.mem_flatMap, List.not_mem_nil,
    or_false] at hc
  rcases hc with rfl | ⟨d, hd, hcd⟩ | rfl
  · exact hquote
  · unfold escapeItemChar at hcd
    split at hcd
    · rcases List.mem_cons.mp hcd with rfl | hcd
      · exact hslash
      · obtain rfl := List.mem_singleton.mp hcd
        exact h item hitem c hd
    · obtain rfl := List.mem_singleton.mp hcd
      exact h item hitem c hd
  · exact hquote

theorem Argument.IsWritable.noBracket {argument : Argument} (h : argument.IsWritable) :
    ∀ c ∈ argument.text, c ≠ ']' := by
  rintro c hc rfl
  cases argument with
  | positional value => exact h.1.noBracket hc
  | named key value =>
    obtain ⟨hkey, -, hvalue⟩ := h
    rcases List.mem_append.mp hc with hc | hc
    · exact hkey.noBracket hc
    · exact hvalue.noBracket (by simpa using hc)

theorem Argument.IsWritable.singleLine {argument : Argument} (h : argument.IsWritable) :
    argument.text.SingleLine := by
  cases argument with
  | positional value => exact h.1.singleLine
  | named key value =>
    obtain ⟨hkey, -, hvalue⟩ := h
    exact Text.singleLine_append.mpr
      ⟨hkey.singleLine, Text.singleLine_cons.mpr ⟨by decide, hvalue.singleLine⟩⟩

/-- A call begins and ends with a double quote. -/
theorem exists_callText_eq (name : Text) (arguments : List Argument) :
    ∃ middle, callText name arguments = '"' :: (middle ++ ['"']) := by
  rw [callText]
  generalize arguments.map (·.text) = others
  induction others generalizing name with
  | nil => exact ⟨name.flatMap escapeItemChar, by simp [quoteItem]⟩
  | cons second others ih =>
    obtain ⟨middle, hmiddle⟩ := ih second
    rw [List.map_cons] at hmiddle
    refine ⟨name.flatMap escapeItemChar ++ '"' :: ',' :: '"' :: middle, ?_⟩
    rw [List.map_cons, List.map_cons, Text.join_cons_cons, hmiddle]
    simp [quoteItem]

theorem strip_callText (name : Text) (arguments : List Argument) :
    Text.strip (callText name arguments) = callText name arguments := by
  obtain ⟨middle, hmiddle⟩ := exists_callText_eq name arguments
  rw [hmiddle]
  refine Text.Trimmed.strip_eq ⟨?_, ?_⟩
  · rintro c ⟨⟩
    decide
  · intro c hc
    obtain rfl : '"' = c := by simpa [List.getLast?_cons] using hc
    decide

theorem strip_directiveText (name : Text) (arguments : List Argument) :
    Text.strip (directiveText name arguments) = directiveText name arguments := by
  refine Text.Trimmed.strip_eq ⟨?_, ?_⟩
  · rintro c ⟨⟩
    decide
  · intro c hc
    obtain rfl : ']' = c := by simpa [directiveText, List.getLast?_cons] using hc
    decide

/-- What stands between the brackets of a directive is the call. -/
theorem between_directiveText (name : Text) (arguments : List Argument) :
    ((directiveText name arguments).drop 2).take ((directiveText name arguments).length - 4) =
      callText name arguments := by
  simp [directiveText]

theorem callText_ne_nil (name : Text) (arguments : List Argument) :
    callText name arguments ≠ [] := by
  obtain ⟨middle, hmiddle⟩ := exists_callText_eq name arguments
  simp [hmiddle]

theorem directiveText_brackets (name : Text) (arguments : List Argument) :
    ['[', '['] <+: directiveText name arguments ∧ [']', ']'] <:+ directiveText name arguments :=
  ⟨⟨callText name arguments ++ [']', ']'], rfl⟩, ⟨'[' :: '[' :: callText name arguments, rfl⟩⟩

theorem unbracket_directiveText (name : Text) (arguments : List Argument) :
    unbracket (directiveText name arguments) = .ok (callText name arguments) := by
  simp [unbracket, strip_directiveText, directiveText_brackets, between_directiveText,
    strip_callText, callText_ne_nil]

theorem wholeLine?_directiveText {name : Text} {arguments : List Argument} (hname : Writable name)
    (hargs : ∀ argument ∈ arguments, argument.IsWritable) :
    wholeLine? (directiveText name arguments) = some (directiveText name arguments) := by
  have hbracket : ']' ∉ callText name arguments := by
    intro hmem
    refine forall_mem_callText (P := (· ≠ ']')) (by decide) (by decide) (by decide) ?_ _ hmem rfl
    intro item hitem c hc
    rcases List.mem_cons.mp hitem with rfl | hitem
    · rintro rfl
      exact hname.noBracket hc
    · obtain ⟨argument, hargument, rfl⟩ := List.mem_map.mp hitem
      exact (hargs argument hargument).noBracket c hc
  simp [wholeLine?, strip_directiveText, between_directiveText, directiveText_brackets,
    callText_ne_nil, hbracket]

theorem singleLine_directiveText {name : Text} {arguments : List Argument} (hname : Writable name)
    (hargs : ∀ argument ∈ arguments, argument.IsWritable) :
    (directiveText name arguments).SingleLine := by
  have hcall : (callText name arguments).SingleLine := by
    refine forall_mem_callText (by decide) (by decide) (by decide) ?_
    intro item hitem
    rcases List.mem_cons.mp hitem with rfl | hitem
    · exact hname.singleLine
    · obtain ⟨argument, hargument, rfl⟩ := List.mem_map.mp hitem
      exact (hargs argument hargument).singleLine
  have hopen : Text.SingleLine ['[', '['] := by decide
  have hclose : Text.SingleLine [']', ']'] := by decide
  exact Text.singleLine_append.mpr ⟨hopen, Text.singleLine_append.mpr ⟨hcall, hclose⟩⟩

end Folio.Directive
