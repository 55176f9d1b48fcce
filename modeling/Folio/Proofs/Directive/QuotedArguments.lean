import Folio.Proofs.Directive.UndefinedCalls

/-!
# Arguments between double quotes

Double quotes make commas, quotes and backslashes part of an argument, but not equals signs: whether
an argument is given by name is decided when its quotes are gone. So quoted values are read back as
values by position exactly if none of them has an equals sign. One that has is taken for a key and a
value, which may have to be refused. Main result: `parse_quoted_values`.

* `items_join`: items that are written one by one, quoted or plain, are read back from their list;
* `Means`: what an item means as an argument;
* `foldlM_addArgument_means`: what a list of items means, and when it is accepted.
-/

namespace Folio.Directive

open Text

/-! ## How items are written -/

/-- The item stands between double quotes, perhaps with blanks around them. -/
inductive WritesQuoted (item : Text) : Text → Prop
  | intro {left right : Text} (left_blank : ∀ c ∈ left, isBlank c = true)
      (right_blank : ∀ c ∈ right, isBlank c = true) :
      WritesQuoted item (left ++ (quoteItem item ++ right))

/-- The name stands between double quotes, or as it is if it has neither commas nor quotes; there
may be blanks around it. -/
inductive WritesName (name : Text) : Text → Prop
  | quoted {written : Text} (h : WritesQuoted name written) : WritesName name written
  | plain {left right : Text} (left_blank : ∀ c ∈ left, isBlank c = true)
      (right_blank : ∀ c ∈ right, isBlank c = true) (noMark : ∀ c ∈ name, c ≠ '"' ∧ c ≠ ',') :
      WritesName name (left ++ (name ++ right))

/-- Wherever it stands, the written text adds the item, perhaps with blanks around it, to what has
been read. -/
def AddsItem (item written : Text) : Prop :=
  ∃ content, strip content = item ∧ ∀ begun rest,
    scanItems .outside begun (written ++ rest) = scanItems .outside (content.reverse ++ begun) rest

theorem not_mark_of_isBlank {c : Char} (h : isBlank c = true) : c ≠ '"' ∧ c ≠ ',' := by
  constructor
  · rintro rfl
    exact absurd h (by decide)
  · rintro rfl
    exact absurd h (by decide)

theorem WritesQuoted.addsItem {item written : Text} (h : WritesQuoted item written)
    (htrimmed : item.Trimmed) : AddsItem item written := by
  cases h with
  | @intro left right hleft hright =>
    refine ⟨left ++ (item ++ right), strip_padded hleft htrimmed hright, fun begun rest => ?_⟩
    rw [List.append_assoc, List.append_assoc,
      scanItems_plain fun c hc => not_mark_of_isBlank (hleft c hc), scanItems_quoteItem,
      scanItems_plain fun c hc => not_mark_of_isBlank (hright c hc)]
    simp only [List.reverse_append, List.append_assoc]

theorem WritesName.addsItem {name written : Text} (h : WritesName name written)
    (htrimmed : name.Trimmed) : AddsItem name written := by
  cases h with
  | quoted hquoted => exact hquoted.addsItem htrimmed
  | @plain left right hleft hright hname =>
    refine ⟨left ++ (name ++ right), strip_padded hleft htrimmed hright, fun begun rest => ?_⟩
    refine scanItems_plain (fun c hc => ?_) begun rest
    rcases List.mem_append.mp hc with hc | hc
    · exact not_mark_of_isBlank (hleft c hc)
    · rcases List.mem_append.mp hc with hc | hc
      · exact hname c hc
      · exact not_mark_of_isBlank (hright c hc)

/-- Items that are written one by one and separated by commas are read back. -/
theorem items_join {first written : Text} {others texts : List Text}
    (hfirst : AddsItem first written) (hothers : List.Forall₂ AddsItem others texts)
    (hne : ∀ item ∈ first :: others, item ≠ []) :
    items (join [','] (written :: texts)) = .ok (first :: others) := by
  unfold items
  induction hothers generalizing first written with
  | nil =>
    obtain ⟨content, rfl, hscan⟩ := hfirst
    have hend := hscan [] []
    rw [List.append_nil, List.append_nil] at hend
    rw [join_singleton, hend, scanItems, List.reverse_reverse,
      closeItem_of_ne (hne _ List.mem_cons_self)]
    rfl
  | cons hsecond _ ih =>
    obtain ⟨content, rfl, hscan⟩ := hfirst
    obtain ⟨hcontent, hrest⟩ := List.forall_mem_cons.mp hne
    rw [join_cons_cons, List.append_assoc, hscan, List.append_nil, List.singleton_append, scanItems,
      if_neg (by decide), if_pos rfl, List.reverse_reverse, closeItem_of_ne hcontent]
    dsimp only
    rw [ih hsecond hrest]
    rfl

/-! ## What items mean -/

/-- What an item means as an argument. The first equals sign parts a key from a value; without one
the item is a value by position. -/
inductive Means : Text → Argument → Prop
  | positional {value : Text} (h : '=' ∉ value) : Means value (.positional value)
  | named {left right : Text} (h : '=' ∉ left) :
      Means (left ++ '=' :: right) (.named (strip left) (strip right))

theorem exists_means (item : Text) : ∃ argument, Means item argument := by
  by_cases h : '=' ∈ item
  · obtain ⟨left, right, rfl, hleft⟩ := List.eq_append_cons_of_mem h
    exact ⟨_, .named hleft⟩
  · exact ⟨_, .positional h⟩

theorem exists_forall₂_means (values : List Text) :
    ∃ arguments, List.Forall₂ Means values arguments := by
  induction values with
  | nil => exact ⟨[], .nil⟩
  | cons value values ih =>
    obtain ⟨argument, hargument⟩ := exists_means value
    obtain ⟨arguments, harguments⟩ := ih
    exact ⟨argument :: arguments, .cons hargument harguments⟩

/-- If the argument is given by name, neither its key nor its value is empty. -/
def Argument.Complete (argument : Argument) : Prop :=
  ∀ pair ∈ argument.named?, pair.1 ≠ [] ∧ pair.2 ≠ []

/-- The arguments can be given in one call: those by name are complete, and no key comes twice. -/
structure Givable (arguments : List Argument) : Prop where
  complete : ∀ argument ∈ arguments, argument.Complete
  distinct : ((arguments.filterMap (·.named?)).map (·.1)).Nodup

section Means

variable {item : Text} {argument : Argument}

theorem Means.completeItem_iff (h : Means item argument) :
    CompleteItem item ↔ argument.Complete := by
  unfold CompleteItem Argument.Complete
  cases h with
  | positional hvalue =>
    have hcut : item.cutAt "=" = none := cutAt_eq_none_iff.mpr hvalue
    rw [hcut]
    exact ⟨fun _ _ hpair => (by cases hpair), fun _ _ hsides => (by cases hsides)⟩
  | @named left right hleft =>
    have hcut : (left ++ '=' :: right).cutAt "=" = some (left, right) :=
      cutAt_append right hleft
    rw [hcut]
    simp [Argument.named?]

theorem Means.key?_eq (h : Means item argument) : key? item = argument.named?.map (·.1) := by
  cases h with
  | positional hvalue => exact key?_eq_none (cutAt_eq_none_iff.mpr hvalue)
  | @named left right hleft => exact key?_eq_some (cutAt_append right hleft)

/-- An item that is accepted adds what it means. -/
theorem Means.of_addArgument (h : Means item argument) {inner : Text} {call next : Call}
    (hnext : call.addArgument inner item = .ok next) :
    next = { call with
      positional := call.positional ++ argument.positional?.toList
      named := call.named ++ argument.named?.toList } := by
  cases h with
  | positional hvalue =>
    rw [addArgument_positional inner call hvalue] at hnext
    rw [← Except.ok.inj hnext]
    simp [Argument.positional?, Argument.named?]
  | @named left right hleft =>
    have hcut : (left ++ '=' :: right).cutAt "=" = some (left, right) :=
      cutAt_append right hleft
    unfold Call.addArgument at hnext
    rw [hcut] at hnext
    dsimp only at hnext
    split_ifs at hnext
    rw [← Except.ok.inj hnext]
    simp [Argument.positional?, Argument.named?]

end Means

theorem forall_mem_iff_of_forall₂ {α β : Type} {R : α → β → Prop} {P : α → Prop} {Q : β → Prop}
    {as : List α} {bs : List β} (h : List.Forall₂ R as bs) (hR : ∀ a b, R a b → (P a ↔ Q b)) :
    (∀ a ∈ as, P a) ↔ ∀ b ∈ bs, Q b := by
  induction h with
  | nil => simp
  | cons hfirst _ ih => rw [List.forall_mem_cons, List.forall_mem_cons, hR _ _ hfirst, ih]

theorem filterMap_key?_eq {values : List Text} {arguments : List Argument}
    (h : List.Forall₂ Means values arguments) :
    values.filterMap key? = (arguments.filterMap (·.named?)).map (·.1) := by
  induction h with
  | nil => rfl
  | cons hfirst _ ih =>
    rw [List.filterMap_cons, List.filterMap_cons, hfirst.key?_eq, ih]
    cases Argument.named? _ <;> rfl

/-- Items that are accepted add, one after another, what they mean. -/
theorem of_foldlM_addArgument {values : List Text} {arguments : List Argument}
    (h : List.Forall₂ Means values arguments) {inner : Text} {call read : Call}
    (hread : values.foldlM (Call.addArgument inner) call = .ok read) :
    read = { call with
      positional := call.positional ++ arguments.filterMap (·.positional?)
      named := call.named ++ arguments.filterMap (·.named?) } := by
  simp only [List.filterMap_eq_flatMap_toList]
  induction h generalizing call with
  | nil =>
    rw [← Except.ok.inj hread]
    simp
  | cons hfirst _ ih =>
    rw [List.foldlM_cons] at hread
    obtain ⟨next, hnext, hrest⟩ := bind_eq_ok_iff.mp hread
    rw [ih hrest, hfirst.of_addArgument hnext]
    simp only [List.flatMap_cons, List.append_assoc]

/-- Items are accepted exactly if what they mean can be given in one call. -/
theorem foldlM_addArgument_means {values : List Text} {arguments : List Argument}
    (h : List.Forall₂ Means values arguments) (inner name : Text) :
    ((∃ read, values.foldlM (Call.addArgument inner) { name } = .ok read) ↔ Givable arguments) ∧
      (Givable arguments → values.foldlM (Call.addArgument inner) { name } =
        .ok (Call.ofArguments name arguments)) := by
  have hiff : (∃ read, values.foldlM (Call.addArgument inner) { name } = .ok read) ↔
      Givable arguments := by
    rw [exists_foldlM_addArgument_iff inner values { name } List.nodup_nil,
      forall_mem_iff_of_forall₂ h fun _ _ hmeans => hmeans.completeItem_iff,
      filterMap_key?_eq h]
    exact ⟨fun hboth => ⟨hboth.1, hboth.2⟩, fun hgivable => ⟨hgivable.complete, hgivable.distinct⟩⟩
  refine ⟨hiff, fun hgivable => ?_⟩
  obtain ⟨read, hread⟩ := hiff.mpr hgivable
  rw [hread, of_foldlM_addArgument h hread]
  rfl

/-! ## The main result -/

/-- A list of items is read as a call of the first of them with the others as its arguments. -/
theorem parse_of_items {inner name : Text} {values : List Text}
    (hitems : items inner = .ok (name :: values)) (hne : name ≠ []) (htrimmed : name.Trimmed) :
    Call.parse inner = values.foldlM (Call.addArgument inner) { name } := by
  unfold Call.parse
  rw [hitems]
  simp only [bind, Except.bind]
  rw [htrimmed.strip_eq, if_neg hne]

/-- Values without equals signs are given by position. -/
theorem eq_map_positional {values : List Text} {arguments : List Argument}
    (h : List.Forall₂ Means values arguments) (hplain : ∀ value ∈ values, '=' ∉ value) :
    arguments = values.map .positional := by
  induction h with
  | nil => rfl
  | cons hfirst _ ih =>
    obtain ⟨hvalue, hrest⟩ := List.forall_mem_cons.mp hplain
    rw [ih hrest]
    cases hfirst with
    | positional _ => rfl
    | named _ => simp at hvalue

theorem givable_positional (values : List Text) : Givable (values.map .positional) where
  complete := by simp [Argument.Complete, Argument.named?]
  distinct := by simp [Argument.named?]

theorem ofArguments_positional (name : Text) (values : List Text) :
    Call.ofArguments name (values.map .positional) = { name, positional := values } := by
  simp [Call.ofArguments, Argument.positional?, Argument.named?]

/-- A value that means an argument by position has no equals sign. -/
theorem not_mem_of_named_eq_nil {values : List Text} {arguments : List Argument}
    (h : List.Forall₂ Means values arguments) (hnamed : arguments.filterMap (·.named?) = []) :
    ∀ value ∈ values, '=' ∉ value := by
  refine (forall_mem_iff_of_forall₂ h ?_).mpr (List.filterMap_eq_nil_iff.mp hnamed)
  intro item argument hmeans
  cases hmeans with
  | positional hvalue => simp [hvalue, Argument.named?]
  | named _ => simp [Argument.named?]

/-- **Quoted values are literal but for equals signs.** A call whose values are trimmed, not empty
and written between double quotes is read as a call of its name with the arguments that the values
mean, if these can be given in one call, and else refused. So the values are returned as they are,
by position and in order, exactly if none of them has an equals sign, whatever else they hold. -/
theorem parse_quoted_values {name head : Text} {values written : List Text}
    (hname : name ≠ [] ∧ name.Trimmed) (hhead : WritesName name head)
    (hvalues : ∀ value ∈ values, value ≠ [] ∧ value.Trimmed)
    (hwritten : List.Forall₂ WritesQuoted values written) :
    (Call.parse (join [','] (head :: written)) = .ok { name, positional := values } ↔
        ∀ value ∈ values, '=' ∉ value) ∧
      ∃ arguments, List.Forall₂ Means values arguments ∧
        (Givable arguments → Call.parse (join [','] (head :: written)) =
          .ok (Call.ofArguments name arguments)) ∧
        (¬ Givable arguments →
          ∃ error, Call.parse (join [','] (head :: written)) = .error error) := by
  obtain ⟨arguments, hmeans⟩ := exists_forall₂_means values
  have hadds : List.Forall₂ AddsItem values written := by
    refine List.Forall₂.imp ?_ ((List.forall₂_and_left _ _).mpr ⟨hvalues, hwritten⟩)
    rintro value text ⟨⟨-, htrimmed⟩, hquoted⟩
    exact hquoted.addsItem htrimmed
  have hitems : items (join [','] (head :: written)) = .ok (name :: values) := by
    refine items_join (hhead.addsItem hname.2) hadds ?_
    exact List.forall_mem_cons.mpr ⟨hname.1, fun value hvalue => (hvalues value hvalue).1⟩
  obtain ⟨hiff, hread⟩ := foldlM_addArgument_means hmeans (join [','] (head :: written)) name
  rw [← parse_of_items hitems hname.1 hname.2] at hiff hread
  refine ⟨⟨?_, ?_⟩, arguments, hmeans, hread, ?_⟩
  · intro hparse
    have hcall := Except.ok.inj ((hread (hiff.mp ⟨_, hparse⟩)).symm.trans hparse)
    exact not_mem_of_named_eq_nil hmeans (congrArg Call.named hcall)
  · intro hplain
    obtain rfl := eq_map_positional hmeans hplain
    rw [hread (givable_positional values), ofArguments_positional]
  · intro hnot
    cases hparse : Call.parse (join [','] (head :: written)) with
    | error error => exact ⟨error, rfl⟩
    | ok call => exact absurd (hiff.mp ⟨call, hparse⟩) hnot

/-- The first value holds a comma, a double quote, a backslash and a blank. -/
theorem parse_quoted_values_link :
    Call.parse (join [','] [" link", " \"a, \\\"b\\\\\" ", "\"c\""]) =
      .ok { name := "link", positional := ["a, \"b\\", "c"] } := by
  have hblank : ∀ c ∈ [' '], isBlank c = true := List.forall_mem_singleton.mpr rfl
  have hnone : ∀ c ∈ ([] : Text), isBlank c = true := fun _ h => absurd h List.not_mem_nil
  have hhead : WritesName "link" " link" := .plain hblank hnone (by simp)
  have hwritten : List.Forall₂ WritesQuoted ["a, \"b\\", "c"]
      [" \"a, \\\"b\\\\\" ", "\"c\""] :=
    .cons (.intro hblank hblank) (.cons (.intro hnone hnone) .nil)
  exact (parse_quoted_values (by decide) hhead (by decide) hwritten).1.mpr (by decide)

/-- **Quotes do not keep an equals sign in its value.** The address is taken for a key and a value,
and the lone sign is refused. -/
theorem not_quoted_values_literal :
    List.Forall₂ WritesQuoted ["a?q=1"] ["\"a?q=1\""] ∧ WritesName "link" "link" ∧
      Call.parse (join [','] ["link", "\"a?q=1\""]) =
        .ok { name := "link", named := [("a?q", "1")] } ∧
      Call.parse (join [','] ["link", "\"a?q=1\""]) ≠
        .ok { name := "link", positional := ["a?q=1"] } ∧
      Call.parse (join [','] ["link", "\"=\""]) =
        .error (.emptyArgumentName "link,\"=\"") := by
  have hnone : ∀ c ∈ ([] : Text), isBlank c = true := fun _ h => absurd h List.not_mem_nil
  exact ⟨.cons (.intro hnone hnone) .nil, .plain hnone hnone (by simp), by decide, by decide,
    by decide⟩

end Folio.Directive
