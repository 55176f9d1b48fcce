import Folio.Proofs.Directive.QuotedArguments

/-!
# The grammar of item lists

A list of items is one or more items with commas between them. An item is made of characters other
than commas and double quotes and of stretches between double quotes; in a stretch a backslash
stands with the character behind it. `ItemsText` is this grammar, together with what the items mean.
The scanner accepts exactly the lists of which no item is blank, and refuses any other text for the
first thing that is wrong with it. Main result: `items_grammar`.

* `items_last`, `items_ended`, `items_opened`: the scanner on what can stand at the front of a text;
* `form_behind`: every text is a list of items, or a double quote in it is left open;
* `ItemsText.unique`: a text is a list of items in one way only;
* `accepts_or`: what the scanner returns is known from the form of the text.
-/

namespace Folio.Directive

open Text

/-! ## The grammar -/

/-- What may stand between two double quotes, and what it means. -/
inductive StretchText : (written content : Text) → Prop
  | nil : StretchText [] []
  | char {c : Char} {written content : Text} (notQuote : c ≠ '"') (notSlash : c ≠ '\\')
      (rest : StretchText written content) : StretchText (c :: written) (c :: content)
  | quote {written content : Text} (rest : StretchText written content) :
      StretchText ('\\' :: '"' :: written) ('"' :: content)
  | slash {written content : Text} (rest : StretchText written content) :
      StretchText ('\\' :: '\\' :: written) ('\\' :: content)
  | pair {c : Char} {written content : Text} (notQuote : c ≠ '"') (notSlash : c ≠ '\\')
      (rest : StretchText written content) :
      StretchText ('\\' :: c :: written) ('\\' :: c :: content)

/-- An item, and what it means. -/
inductive ItemText : (written content : Text) → Prop
  | nil : ItemText [] []
  | char {c : Char} {written content : Text} (notComma : c ≠ ',') (notQuote : c ≠ '"')
      (rest : ItemText written content) : ItemText (c :: written) (c :: content)
  | quoted {stretch read written content : Text} (stretched : StretchText stretch read)
      (rest : ItemText written content) :
      ItemText ('"' :: (stretch ++ '"' :: written)) (read ++ content)

/-- One or more items with commas between them, and what they mean. -/
inductive ItemsText : Text → List Text → Prop
  | last {written content : Text} (item : ItemText written content) : ItemsText written [content]
  | more {written content text : Text} {contents : List Text} (item : ItemText written content)
      (rest : ItemsText text contents) :
      ItemsText (written ++ ',' :: text) (content :: contents)

/-- A double quote behind some items and commas is not closed; what the items before the last comma
mean. -/
inductive LeftOpen : Text → List Text → Prop
  | quote {written content stretch read : Text} (item : ItemText written content)
      (stretched : StretchText stretch read) : LeftOpen (written ++ '"' :: stretch) []
  | more {written content text : Text} {contents : List Text} (item : ItemText written content)
      (rest : LeftOpen text contents) : LeftOpen (written ++ ',' :: text) (content :: contents)

/-- There are only blanks in the text. -/
def AllBlank (content : Text) : Prop := ∀ c ∈ content, isBlank c = true

instance (content : Text) : Decidable (AllBlank content) := List.decidableBAll _ _

/-- Behind some items and commas there is a blank item that a comma ends, whatever follows it. -/
inductive BlankEnded : Text → Prop
  | here {written content : Text} (item : ItemText written content) (blank : AllBlank content)
      (rest : Text) : BlankEnded (written ++ ',' :: rest)
  | later {written content text : Text} (item : ItemText written content)
      (rest : BlankEnded text) : BlankEnded (written ++ ',' :: text)

/-! ## Where quotes are open -/

/-- Where a character leads the scanner. -/
def Quotation.next : Quotation → Char → Quotation
  | .outside, c => if c = '"' then .quoted else .outside
  | .quoted, c => if c = '\\' then .escaped else if c = '"' then .outside else .quoted
  | .escaped, _ => .quoted

/-- Where the scanner stands behind a text. -/
def Quotation.behind (text : Text) : Quotation := text.foldl Quotation.next .outside

theorem StretchText.foldl_next {written content : Text} (h : StretchText written content) :
    written.foldl Quotation.next .quoted = .quoted := by
  induction h with
  | nil => rfl
  | char notQuote notSlash _ ih => simp [Quotation.next, notQuote, notSlash, ih]
  | quote _ ih => simp [Quotation.next, ih]
  | slash _ ih => simp [Quotation.next, ih]
  | pair _ _ _ ih => simp [Quotation.next, ih]

theorem ItemText.foldl_next {written content : Text} (h : ItemText written content) :
    written.foldl Quotation.next .outside = .outside := by
  induction h with
  | nil => rfl
  | char _ notQuote _ ih => simp [Quotation.next, notQuote, ih]
  | quoted stretched _ ih => simp [Quotation.next, stretched.foldl_next, ih]

theorem ItemsText.behind_eq {text : Text} {contents : List Text} (h : ItemsText text contents) :
    Quotation.behind text = .outside := by
  unfold Quotation.behind
  induction h with
  | last item => exact item.foldl_next
  | more item _ ih => simp [item.foldl_next, Quotation.next, ih]

/-! ## The scanner on the grammar -/

theorem StretchText.scan {written content : Text} (h : StretchText written content)
    (begun rest : Text) :
    scanItems .quoted begun (written ++ rest) =
      scanItems .quoted (content.reverse ++ begun) rest := by
  induction h generalizing begun with
  | nil => rfl
  | char notQuote notSlash _ ih => simp [scanItems, notQuote, notSlash, ih]
  | quote _ ih => simp [scanItems, unescape, ih]
  | slash _ ih => simp [scanItems, unescape, ih]
  | pair notQuote notSlash _ ih => simp [scanItems, unescape, notQuote, notSlash, ih]

theorem ItemText.scan {written content : Text} (h : ItemText written content) (begun rest : Text) :
    scanItems .outside begun (written ++ rest) =
      scanItems .outside (content.reverse ++ begun) rest := by
  induction h generalizing begun with
  | nil => rfl
  | char notComma notQuote _ ih => simp [scanItems, notComma, notQuote, ih]
  | quoted stretched _ ih => simp [scanItems, stretched.scan, ih]

section Scanner

variable {written content : Text} (item : ItemText written content)
include item

/-- An item that is the whole rest of the text. -/
theorem items_last : items written = (closeItem content).map ([·]) := by
  have hscan := item.scan [] []
  simp only [List.append_nil] at hscan
  rw [items, hscan, scanItems, List.reverse_reverse]

/-- An item that a comma ends. -/
theorem items_ended (rest : Text) :
    items (written ++ ',' :: rest) =
      closeItem content >>= fun closed => (items rest).map (closed :: ·) := by
  rw [items, item.scan, List.append_nil, scanItems, if_neg (by decide), if_pos rfl,
    List.reverse_reverse]
  cases closeItem content with
  | error e => rfl
  | ok closed => rfl

/-- An item in which a double quote is left open, perhaps behind a backslash. -/
theorem items_opened {stretch read : Text} (stretched : StretchText stretch read) :
    items (written ++ '"' :: stretch) = .error .unclosedQuote ∧
      items (written ++ '"' :: stretch ++ ['\\']) = .error .unclosedQuote := by
  have hopen (rest : Text) : items (written ++ '"' :: (stretch ++ rest)) =
      scanItems .quoted (read.reverse ++ content.reverse) rest := by
    rw [items, item.scan, List.append_nil, scanItems, if_pos rfl, stretched.scan]
  constructor
  · simpa [scanItems] using hopen []
  · rw [List.append_assoc, List.cons_append, hopen]
    rfl

end Scanner

/-! ## Every text has a form of the grammar -/

theorem StretchText.append {written content written' content' : Text}
    (h : StretchText written content) (h' : StretchText written' content') :
    StretchText (written ++ written') (content ++ content') := by
  induction h with
  | nil => exact h'
  | char notQuote notSlash _ ih => exact .char notQuote notSlash ih
  | quote _ ih => exact .quote ih
  | slash _ ih => exact .slash ih
  | pair notQuote notSlash _ ih => exact .pair notQuote notSlash ih

theorem ItemText.append {written content written' content' : Text} (h : ItemText written content)
    (h' : ItemText written' content') : ItemText (written ++ written') (content ++ content') := by
  induction h with
  | nil => exact h'
  | char notComma notQuote _ ih => exact .char notComma notQuote ih
  | quoted stretched _ ih => simpa using ItemText.quoted stretched ih

theorem stretchText_pair (c : Char) : ∃ content, StretchText ['\\', c] content := by
  by_cases hquote : c = '"'
  · rw [hquote]
    exact ⟨_, .quote .nil⟩
  · by_cases hslash : c = '\\'
    · rw [hslash]
      exact ⟨_, .slash .nil⟩
    · exact ⟨_, .pair hquote hslash .nil⟩

section Extend

variable {text : Text} {contents : List Text}

/-- A list goes on in its last item. -/
theorem ItemsText.extend (h : ItemsText text contents) {written content : Text}
    (item : ItemText written content) : ∃ contents', ItemsText (text ++ written) contents' := by
  induction h with
  | last first => exact ⟨_, .last (first.append item)⟩
  | more first _ ih =>
    obtain ⟨contents', hrest⟩ := ih
    exact ⟨_, by simpa using hrest.more first⟩

/-- A comma begins another item. -/
theorem ItemsText.comma (h : ItemsText text contents) :
    ∃ contents', ItemsText (text ++ [',']) contents' := by
  induction h with
  | last first => exact ⟨_, .more first (.last .nil)⟩
  | more first _ ih =>
    obtain ⟨contents', hrest⟩ := ih
    exact ⟨_, by simpa using hrest.more first⟩

/-- A double quote opens a stretch. -/
theorem ItemsText.open (h : ItemsText text contents) :
    ∃ contents', LeftOpen (text ++ ['"']) contents' := by
  induction h with
  | last first => exact ⟨_, .quote first .nil⟩
  | more first _ ih =>
    obtain ⟨contents', hrest⟩ := ih
    exact ⟨_, by simpa using hrest.more first⟩

/-- An open stretch goes on. -/
theorem LeftOpen.extend (h : LeftOpen text contents) {stretch read : Text}
    (stretched : StretchText stretch read) : LeftOpen (text ++ stretch) contents := by
  induction h with
  | quote first begun => simpa using LeftOpen.quote first (begun.append stretched)
  | more first _ ih => simpa using ih.more first

/-- A double quote closes a stretch. -/
theorem LeftOpen.close (h : LeftOpen text contents) :
    ∃ contents', ItemsText (text ++ ['"']) contents' := by
  induction h with
  | quote first stretched =>
    have hitem := first.append (.quoted stretched .nil)
    exact ⟨_, by simpa using ItemsText.last hitem⟩
  | more first _ ih =>
    obtain ⟨contents', hrest⟩ := ih
    exact ⟨_, by simpa using hrest.more first⟩

end Extend

/-- The form of a text behind which the scanner stands there. -/
def Quotation.Form : Quotation → Text → Prop
  | .outside, text => ∃ contents, ItemsText text contents
  | .quoted, text => ∃ contents, LeftOpen text contents
  | .escaped, text => ∃ opened contents, text = opened ++ ['\\'] ∧ LeftOpen opened contents

/-- **One character.** -/
theorem Quotation.Form.concat {state : Quotation} {text : Text} (h : state.Form text) (c : Char) :
    (state.next c).Form (text ++ [c]) := by
  cases state with
  | outside =>
    obtain ⟨contents, hlist⟩ := h
    by_cases hquote : c = '"'
    · simpa [next, Form, hquote] using hlist.open
    · by_cases hcomma : c = ','
      · simpa [next, Form, hcomma] using hlist.comma
      · simpa [next, Form, hquote] using hlist.extend (.char hcomma hquote .nil)
  | quoted =>
    obtain ⟨contents, hopen⟩ := h
    by_cases hslash : c = '\\'
    · have hdangling : Quotation.escaped.Form (text ++ ['\\']) := ⟨text, contents, rfl, hopen⟩
      simpa [next, hslash] using hdangling
    · by_cases hquote : c = '"'
      · simpa [next, Form, hquote] using hopen.close
      · simpa [next, Form, hslash, hquote] using
          ⟨contents, hopen.extend (.char hquote hslash .nil)⟩
  | escaped =>
    obtain ⟨opened, contents, rfl, hopen⟩ := h
    obtain ⟨content, hpair⟩ := stretchText_pair c
    exact ⟨contents, by simpa using hopen.extend hpair⟩

/-- **A whole text.** It is a list of items, or a double quote in it is left open. -/
theorem form_behind (text : Text) : (Quotation.behind text).Form text := by
  -- from the last character: the scanner's place behind a text is known from its front
  induction text using List.reverseRecOn with
  | nil => exact ⟨_, .last .nil⟩
  | append_singleton text c ih =>
    unfold Quotation.behind
    rw [List.foldl_append]
    exact ih.concat c

/-! ## A text has one form only -/

theorem StretchText.cancel {first second read other left right : Text}
    (h : StretchText first read) (h' : StretchText second other)
    (heq : first ++ '"' :: left = second ++ '"' :: right) : read = other ∧ left = right := by
  induction h generalizing second other with
  | nil => cases h' <;> grind
  | char _ _ _ ih => cases h' <;> grind
  | quote _ ih => cases h' <;> grind
  | slash _ ih => cases h' <;> grind
  | pair _ _ _ ih => cases h' <;> grind

/-- An item ends at the end of the text or at the first comma outside quotes. -/
theorem ItemText.cancel {first second content other : Text} (h : ItemText first content)
    (h' : ItemText second other) {left right : Text} (heq : first ++ left = second ++ right)
    (hleft : left.head?.all (· = ',')) (hright : right.head?.all (· = ',')) :
    content = other ∧ left = right := by
  induction h generalizing second other with
  | nil =>
    subst heq
    cases h' with
    | nil => exact ⟨rfl, rfl⟩
    | char notComma _ _ => simp [notComma] at hleft
    | quoted _ _ => simp at hleft
  | char notComma notQuote _ ih =>
    cases h' with
    | nil =>
      subst heq
      simp [notComma] at hright
    | char _ _ rest =>
      obtain ⟨rfl, htail⟩ := List.cons.inj heq
      obtain ⟨rfl, hsame⟩ := ih rest htail
      exact ⟨rfl, hsame⟩
    | quoted _ _ => exact absurd (List.cons.inj heq).1 notQuote
  | quoted stretched _ ih =>
    cases h' with
    | nil =>
      subst heq
      simp at hright
    | char _ notQuote _ => exact absurd (List.cons.inj heq).1.symm notQuote
    | quoted stretched' rest =>
      simp only [List.cons_append, List.append_assoc, List.cons.injEq, true_and] at heq
      obtain ⟨rfl, hafter⟩ := stretched.cancel stretched' heq
      obtain ⟨rfl, hsame⟩ := ih rest hafter
      exact ⟨rfl, hsame⟩

theorem ItemsText.unique {text : Text} {contents contents' : List Text}
    (h : ItemsText text contents) (h' : ItemsText text contents') : contents = contents' := by
  induction h generalizing contents' with
  | @last written content item =>
    generalize htext : written = text' at h'
    cases h' with
    | last item' =>
      obtain ⟨rfl, -⟩ := item.cancel item' (congrArg (· ++ ([] : Text)) htext) rfl rfl
      rfl
    | more item' rest' =>
      have hend := (item.cancel item' ((List.append_nil _).trans htext) rfl rfl).2
      cases hend
  | @more written content text contents item rest ih =>
    generalize htext : written ++ ',' :: text = text' at h'
    cases h' with
    | last item' =>
      have hend := (item.cancel item' (htext.trans (List.append_nil _).symm) rfl rfl).2
      cases hend
    | more item' rest' =>
      obtain ⟨rfl, hrest⟩ := item.cancel item' htext rfl rfl
      obtain ⟨-, rfl⟩ := List.cons.inj hrest
      rw [ih rest']

/-! ## What the scanner returns -/

theorem closeItem_of_allBlank {content : Text} (h : AllBlank content) :
    closeItem content = .error .emptyItem := by
  unfold closeItem
  dsimp only
  rw [if_pos (strip_eq_nil_iff.mpr h)]

theorem closeItem_of_not_allBlank {content : Text} (h : ¬ AllBlank content) :
    closeItem content = .ok (strip content) :=
  closeItem_of_ne fun hnil => h (strip_eq_nil_iff.mp hnil)

/-- A comma does not hide a blank item behind it. -/
theorem items_ended_emptyItem {written content rest : Text} (item : ItemText written content)
    (h : items rest = .error .emptyItem) : items (written ++ ',' :: rest) = .error .emptyItem := by
  rw [items_ended item, h]
  by_cases hblank : AllBlank content
  · rw [closeItem_of_allBlank hblank]
    rfl
  · rw [closeItem_of_not_allBlank hblank]
    rfl

section Returned

variable {text : Text} {contents : List Text}

/-- A list without blank items is accepted. -/
theorem ItemsText.items_eq_ok (h : ItemsText text contents)
    (hne : ∀ content ∈ contents, ¬ AllBlank content) : items text = .ok (contents.map strip) := by
  induction h with
  | last item =>
    rw [items_last item, closeItem_of_not_allBlank (hne _ List.mem_cons_self)]
    rfl
  | more item _ ih =>
    obtain ⟨hfirst, hrest⟩ := List.forall_mem_cons.mp hne
    rw [items_ended item, closeItem_of_not_allBlank hfirst, ih hrest]
    rfl

/-- A text in which a double quote is left open is refused for it, unless an item before it is
blank. A backslash at its end does not matter. -/
theorem LeftOpen.items_eq_error (h : LeftOpen text contents)
    (hne : ∀ content ∈ contents, ¬ AllBlank content) :
    items text = .error .unclosedQuote ∧ items (text ++ ['\\']) = .error .unclosedQuote := by
  induction h with
  | quote item stretched => exact items_opened item stretched
  | more item _ ih =>
    obtain ⟨hfirst, hrest⟩ := List.forall_mem_cons.mp hne
    obtain ⟨hplain, hdangling⟩ := ih hrest
    rw [List.append_assoc, List.cons_append, items_ended item, items_ended item,
      closeItem_of_not_allBlank hfirst, hplain, hdangling]
    exact ⟨rfl, rfl⟩

/-- A blank item is refused at its comma, whatever follows. -/
theorem BlankEnded.items_eq_error (h : BlankEnded text) : items text = .error .emptyItem := by
  induction h with
  | here item blank rest =>
    rw [items_ended item, closeItem_of_allBlank blank]
    rfl
  | later item _ ih => exact items_ended_emptyItem item ih

theorem BlankEnded.append (h : BlankEnded text) (others : Text) : BlankEnded (text ++ others) := by
  induction h with
  | here item blank rest => simpa using BlankEnded.here item blank (rest ++ others)
  | later item _ ih => simpa using ih.later item

theorem ItemsText.getLast?_cons (h : ItemsText text contents) (content : Text) :
    (content :: contents).getLast? = contents.getLast? := by
  cases h <;> simp [List.getLast?_cons_cons]

/-- A list of which the last item is blank is refused for it or for a blank item before it. -/
theorem ItemsText.items_eq_error (h : ItemsText text contents)
    (hlast : ∃ last ∈ contents.getLast?, AllBlank last) : items text = .error .emptyItem := by
  induction h with
  | last item =>
    obtain ⟨last, hmem, hblank⟩ := hlast
    obtain rfl : _ = last := by simpa using hmem
    rw [items_last item, closeItem_of_allBlank hblank]
    rfl
  | more item rest ih =>
    rw [rest.getLast?_cons] at hlast
    exact items_ended_emptyItem item (ih hlast)

/-- Of the items of a list none is blank, or one that a comma ends, or the last. -/
theorem ItemsText.blank_cases (h : ItemsText text contents) :
    (∀ content ∈ contents, ¬ AllBlank content) ∨ BlankEnded text ∨
      ∃ last ∈ contents.getLast?, AllBlank last := by
  induction h with
  | @last _ content item =>
    by_cases hblank : AllBlank content
    · exact .inr (.inr ⟨content, rfl, hblank⟩)
    · exact .inl (List.forall_mem_singleton.mpr hblank)
  | @more _ content text _ item rest ih =>
    by_cases hblank : AllBlank content
    · exact .inr (.inl (.here item hblank text))
    · rcases ih with hnone | hended | hlast
      · exact .inl (List.forall_mem_cons.mpr ⟨hblank, hnone⟩)
      · exact .inr (.inl (hended.later item))
      · exact .inr (.inr (rest.getLast?_cons content ▸ hlast))

theorem LeftOpen.blank_cases (h : LeftOpen text contents) :
    (∀ content ∈ contents, ¬ AllBlank content) ∨ BlankEnded text := by
  induction h with
  | quote _ _ => exact .inl (by simp)
  | @more _ content text _ item _ ih =>
    by_cases hblank : AllBlank content
    · exact .inr (.here item hblank text)
    · rcases ih with hnone | hended
      · exact .inl (List.forall_mem_cons.mpr ⟨hblank, hnone⟩)
      · exact .inr (hended.later item)

end Returned

/-- The text is a list of items of which none is blank; what the items mean, trimmed. -/
def Accepts (text : Text) (result : List Text) : Prop :=
  ∃ contents, ItemsText text contents ∧ (∀ content ∈ contents, ¬ AllBlank content) ∧
    result = contents.map strip

/-- An item that a comma ends is blank, before any double quote that is left open; or all of them
are closed and the last item is blank. -/
def HasBlank (text : Text) : Prop :=
  BlankEnded text ∨ ∃ contents, ItemsText text contents ∧ ∃ last ∈ contents.getLast?, AllBlank last

/-- A double quote is left open, perhaps with a backslash at the end, and no item before it is
blank. -/
def HasOpen (text : Text) : Prop :=
  ∃ opened contents, LeftOpen opened contents ∧ (text = opened ∨ text = opened ++ ['\\']) ∧
    ∀ content ∈ contents, ¬ AllBlank content

theorem accepts_or (text : Text) :
    (∃ result, Accepts text result) ∨ HasBlank text ∨ HasOpen text := by
  have hform := form_behind text
  generalize Quotation.behind text = state at hform
  cases state with
  | outside =>
    obtain ⟨contents, hlist⟩ := hform
    rcases hlist.blank_cases with hnone | hended | hlast
    · exact .inl ⟨_, contents, hlist, hnone, rfl⟩
    · exact .inr (.inl (.inl hended))
    · exact .inr (.inl (.inr ⟨contents, hlist, hlast⟩))
  | quoted =>
    obtain ⟨contents, hopen⟩ := hform
    rcases hopen.blank_cases with hnone | hended
    · exact .inr (.inr ⟨text, contents, hopen, .inl rfl, hnone⟩)
    · exact .inr (.inl (.inl hended))
  | escaped =>
    obtain ⟨opened, contents, rfl, hopen⟩ := hform
    rcases hopen.blank_cases with hnone | hended
    · exact .inr (.inr ⟨opened, contents, hopen, .inr rfl, hnone⟩)
    · exact .inr (.inl (.inl (hended.append ['\\'])))

section Outcomes

variable {text : Text}

theorem Accepts.items_eq {result : List Text} (h : Accepts text result) :
    items text = .ok result := by
  obtain ⟨contents, hlist, hnone, rfl⟩ := h
  exact hlist.items_eq_ok hnone

theorem HasBlank.items_eq (h : HasBlank text) : items text = .error .emptyItem := by
  rcases h with hended | ⟨contents, hlist, hlast⟩
  · exact hended.items_eq_error
  · exact hlist.items_eq_error hlast

theorem HasOpen.items_eq (h : HasOpen text) : items text = .error .unclosedQuote := by
  obtain ⟨opened, contents, hopen, rfl | rfl, hnone⟩ := h
  · exact (hopen.items_eq_error hnone).1
  · exact (hopen.items_eq_error hnone).2

theorem items_eq_ok_iff {result : List Text} : items text = .ok result ↔ Accepts text result := by
  refine ⟨fun h => ?_, Accepts.items_eq⟩
  rcases accepts_or text with ⟨other, haccepts⟩ | hblank | hopen
  · obtain rfl := Except.ok.inj (haccepts.items_eq.symm.trans h)
    exact haccepts
  · cases hblank.items_eq.symm.trans h
  · cases hopen.items_eq.symm.trans h

theorem items_eq_emptyItem_iff : items text = .error .emptyItem ↔ HasBlank text := by
  refine ⟨fun h => ?_, HasBlank.items_eq⟩
  rcases accepts_or text with ⟨other, haccepts⟩ | hblank | hopen
  · cases haccepts.items_eq.symm.trans h
  · exact hblank
  · cases hopen.items_eq.symm.trans h

theorem items_eq_unclosedQuote_iff : items text = .error .unclosedQuote ↔ HasOpen text := by
  refine ⟨fun h => ?_, HasOpen.items_eq⟩
  rcases accepts_or text with ⟨other, haccepts⟩ | hblank | hopen
  · cases haccepts.items_eq.symm.trans h
  · cases hblank.items_eq.symm.trans h
  · exact hopen

/-- Behind a text that is accepted every double quote is closed. -/
theorem behind_of_items_eq_ok {result : List Text} (h : items text = .ok result) :
    Quotation.behind text = .outside := by
  obtain ⟨contents, hlist, -, -⟩ := items_eq_ok_iff.mp h
  exact hlist.behind_eq

theorem eq_of_items_eq_error {error : DirectiveError} (h : items text = .error error) :
    error = .emptyItem ∨ error = .unclosedQuote := by
  rcases accepts_or text with ⟨other, haccepts⟩ | hblank | hopen
  · cases haccepts.items_eq.symm.trans h
  · exact .inl (Except.error.inj (h.symm.trans hblank.items_eq))
  · exact .inr (Except.error.inj (h.symm.trans hopen.items_eq))

/-- A backslash at the end of an open stretch changes nothing: the text is refused as it would be
without it. -/
theorem exists_error_of_escaped (h : Quotation.behind text = .escaped) :
    ∃ error, items text = .error error ∧ items text.dropLast = .error error := by
  have hform := form_behind text
  rw [h] at hform
  obtain ⟨opened, contents, rfl, hopen⟩ := hform
  rw [List.dropLast_concat]
  rcases hopen.blank_cases with hnone | hended
  · exact ⟨_, (hopen.items_eq_error hnone).2, (hopen.items_eq_error hnone).1⟩
  · exact ⟨_, (hended.append _).items_eq_error, hended.items_eq_error⟩

end Outcomes

/-! ## The main result -/

/-- **The scanner accepts its grammar and nothing else.** A text is accepted exactly if it is a
list of items of which none is blank, and then gives what they mean, trimmed and in order; it is a
list of items in one way at most. It is refused for a blank item exactly if one that a comma ends
is blank, before any double quote that is left open, or all of them are closed and the last item
is blank; for an open quote exactly if one is left open behind items that are not blank; and for
nothing else. Behind a text that is accepted the scanner stands outside quotes. Where it stands
behind the backslash of an open stretch, the text is refused as it would be without that
backslash. -/
theorem items_grammar (text : Text) :
    (∀ result, items text = .ok result ↔ Accepts text result) ∧
      (∀ contents contents', ItemsText text contents → ItemsText text contents' →
        contents = contents') ∧
      (items text = .error .emptyItem ↔ HasBlank text) ∧
      (items text = .error .unclosedQuote ↔ HasOpen text) ∧
      (∀ error, items text = .error error → error = .emptyItem ∨ error = .unclosedQuote) ∧
      (∀ result, items text = .ok result → Quotation.behind text = .outside) ∧
      (Quotation.behind text = .escaped →
        ∃ error, items text = .error error ∧ items text.dropLast = .error error) := by
  refine ⟨fun result => items_eq_ok_iff, ?_, items_eq_emptyItem_iff, items_eq_unclosedQuote_iff, ?_,
    ?_, exists_error_of_escaped⟩
  · intro contents contents' h h'
    exact h.unique h'
  · intro error h
    exact eq_of_items_eq_error h
  · intro result h
    exact behind_of_items_eq_ok h

/-- The first item has a stretch with a comma, an escaped quote and a backslash that is kept; the
backslash of the second stands outside quotes. In the other texts the item before the second comma
is blank, so that the open quote behind it is not seen, and a stretch ends behind a backslash. -/
theorem items_grammar_stretches :
    items "x\"a,\\\"\\n\" , c\\" = .ok ["xa,\"\\n", "c\\"] ∧
      items "a, ,\"b" = .error .emptyItem ∧
      ∃ error, items "a,\"b\\" = .error error ∧ items "a,\"b" = .error error := by
  have hfirst : ItemText "x\"a,\\\"\\n\" " "xa,\"\\n " :=
    .char (by decide) (by decide) (.quoted
      (.char (by decide) (by decide) (.char (by decide) (by decide)
        (.quote (.pair (by decide) (by decide) .nil))))
      (.char (by decide) (by decide) .nil))
  have hsecond : ItemText " c\\" " c\\" :=
    .char (by decide) (by decide) (.char (by decide) (by decide)
      (.char (by decide) (by decide) .nil))
  have hblank : BlankEnded "a, ,\"b" :=
    .later (.char (by decide) (by decide) .nil)
      (.here (.char (by decide) (by decide) .nil) (by decide) "\"b")
  refine ⟨?_, ?_, ?_⟩
  · exact ((items_grammar _).1 _).mpr ⟨_, .more hfirst (.last hsecond), by decide, rfl⟩
  · exact (items_grammar _).2.2.1.mpr (.inl hblank)
  · exact (items_grammar "a,\"b\\").2.2.2.2.2.2 rfl

end Folio.Directive
