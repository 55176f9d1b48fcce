import Folio.Proofs.Build.TemplateFaults

/-!
# Parameters and slots

A parameter can have any name without an equals sign, but only some names can be those of slots.
Where `${p}` stands in a template and `p` is no name of a slot, the text is not read as a slot: the
template is filled around it (`fill_around`), and the value of `p` is not used.

* `parameter_usable_iff`: a parameter can be used in a template exactly if its name is one that
  slots can have, as far as the template mentions it and can be filled at all. If it is not, its
  slot is left in the text and nothing is reported.
* `not_usable_hyphen`: a hyphen in the name is enough.
-/

namespace Folio

namespace Directive

open Text

/-! ## Templates in parts -/

/-- A template is read part by part if no slot reaches over the place where they meet. -/
theorem pieces_append {front rest : Text}
    (h : ∀ back, back <:+ front → back ≠ [] → ∀ slot : SlotName,
      slot.slot <+: back ++ rest → slot.slot <+: back) :
    pieces (front ++ rest) = pieces front ++ pieces rest := by
  have hreads := reads_pieces front
  generalize pieces front = ps at hreads
  induction hreads with
  | done => rfl
  | @slot name after ps hname _ ih =>
    rw [List.append_assoc, pieces_slotText hname, List.cons_append,
      ih fun back hback => h back (hback.trans (List.suffix_append _ _))]
  | @literal c after ps hnone _ ih =>
    have hnone' : ∀ name tail, IsSlotName name → c :: (after ++ rest) ≠ slotText name ++ tail := by
      intro name tail hname heq
      obtain ⟨tail', htail⟩ := h _ (List.suffix_refl _) (List.cons_ne_nil _ _) ⟨name, hname⟩
        ⟨tail, heq.symm⟩
      exact hnone name tail' hname htail.symm
    rw [List.cons_append, pieces_literal hnone', List.cons_append,
      ih fun back hback => h back (hback.trans (List.suffix_cons _ _))]

/-- No slot reaches over a dollar sign. -/
theorem pieces_append_dollar (front rest : Text) :
    pieces (front ++ '$' :: rest) = pieces front ++ pieces ('$' :: rest) := by
  refine pieces_append fun back _ hback slot hbegins => ?_
  rcases List.prefix_or_prefix_of_prefix hbegins (List.prefix_append _ _) with
    hwithin | ⟨more, hmore⟩
  · exact hwithin
  · cases more with
    | nil => rw [← hmore, List.append_nil]
    | cons c more =>
      rw [← hmore, List.prefix_append_right_inj] at hbegins
      obtain rfl : c = '$' := (List.cons_prefix_cons.mp hbegins).1
      obtain ⟨first, others, rfl⟩ := List.exists_cons_of_ne_nil hback
      obtain ⟨-, htail⟩ : first = '$' ∧ others ++ '$' :: more = '{' :: (slot.name ++ ['}']) :=
        List.cons.inj hmore
      exact absurd (htail ▸ List.mem_append_right _ List.mem_cons_self) (dollar_not_mem slot.isName)

theorem brace_not_mem {name : Text} (h : IsSlotName name) : '}' ∉ '$' :: '{' :: name := by
  obtain ⟨first, rest, rfl, hfirst, hrest⟩ := h
  have hstart : first ≠ '}' := by
    rintro rfl
    exact absurd hfirst (by decide)
  have hothers : '}' ∉ rest := fun hmem => absurd (hrest '}' hmem) (by decide)
  simp [Ne.symm hstart, hothers]

/-- No slot reaches over a closing brace. -/
theorem pieces_brace_append (front rest : Text) :
    pieces (front ++ ['}'] ++ rest) = pieces (front ++ ['}']) ++ pieces rest := by
  refine pieces_append fun back hback hne slot hbegins => ?_
  rcases List.prefix_or_prefix_of_prefix hbegins (List.prefix_append _ _) with
    hwithin | ⟨more, hmore⟩
  · exact hwithin
  · have hlast : back.getLast? = some '}' := by
      obtain ⟨before, hbefore⟩ := hback
      have hend := congrArg List.getLast? hbefore
      rwa [List.getLast?_append_of_ne_nil _ hne, List.getLast?_concat] at hend
    have hinit : (slot.slot).dropLast = '$' :: '{' :: slot.name := by
      have hslot : slot.slot = ('$' :: '{' :: slot.name) ++ ['}'] := rfl
      rw [hslot, List.dropLast_concat]
    by_cases hnil : more = []
    · rw [← hmore, hnil, List.append_nil]
    · have hmem : '}' ∈ (slot.slot).dropLast := by
        rw [← hmore, List.dropLast_append_of_ne_nil hnil]
        exact List.mem_append_left _ (List.mem_of_getLast? hlast)
      exact absurd (hinit ▸ hmem) (brace_not_mem slot.isName)

/-- What stands before and behind the text of a slot is read on its own, also if it is no slot. -/
theorem pieces_around (front name back : Text) :
    pieces (front ++ (slotText name ++ back)) =
      pieces front ++ (pieces (slotText name) ++ pieces back) := by
  have hbehind : pieces (slotText name ++ back) = pieces (slotText name) ++ pieces back :=
    pieces_brace_append ('$' :: '{' :: name) back
  rw [← hbehind]
  exact pieces_append_dollar front _

/-! ## Filling in parts -/

/-- The values of names that no slot of the template has do not matter. -/
theorem fill_congr {template : Text} {bindings other : Bindings}
    (h : ∀ name, HasSlot template name → bindings.get? name = other.get? name) :
    fill template bindings = fill template other := by
  have hnames : ∀ name ∈ slotNames (pieces template), bindings.get? name = other.get? name :=
    fun name hname => h name (mem_slotNames_iff.mp hname)
  have hunknown : ((slotNames (pieces template)).filter fun name => (bindings.get? name).isNone) =
      (slotNames (pieces template)).filter fun name => (other.get? name).isNone :=
    List.filter_congr fun name hname => by rw [hnames name hname]
  have hfilled : (pieces template).flatMap (·.filled bindings) =
      (pieces template).flatMap (·.filled other) := by
    refine List.flatMap_congr fun piece hpiece => ?_
    cases piece with
    | literal c => rfl
    | slot name =>
      have hname : name ∈ slotNames (pieces template) :=
        List.mem_filterMap.mpr ⟨.slot name, hpiece, rfl⟩
      rw [Piece.filled, Piece.filled, hnames name hname]
  unfold fill
  dsimp only
  rw [hunknown, hfilled]

/-- A template is filled before, at and behind the text of a slot. -/
theorem fill_around {front name back text : Text} {bindings : Bindings} :
    fill (front ++ (slotText name ++ back)) bindings = .ok text ↔
      ∃ before value after, fill front bindings = .ok before ∧
        fill (slotText name) bindings = .ok value ∧ fill back bindings = .ok after ∧
        text = before ++ (value ++ after) := by
  simp only [fill_eq_ok_iff, pieces_around, slotNames, List.filterMap_append, List.flatMap_append,
    List.forall_mem_append]
  constructor
  · rintro ⟨⟨hfront, hslot, hback⟩, rfl⟩
    exact ⟨_, _, _, ⟨hfront, rfl⟩, ⟨hslot, rfl⟩, ⟨hback, rfl⟩, rfl⟩
  · rintro ⟨_, _, _, ⟨hfront, rfl⟩, ⟨hslot, rfl⟩, ⟨hback, rfl⟩, rfl⟩
    exact ⟨⟨hfront, hslot, hback⟩, rfl⟩

theorem fill_slotText {name value : Text} (hname : IsSlotName name) {bindings : Bindings} :
    fill (slotText name) bindings = .ok value ↔ bindings.get? name = some value := by
  have hpieces := pieces_slotText hname []
  rw [List.append_nil] at hpieces
  rw [fill_eq_ok_iff, hpieces]
  cases hvalue : bindings.get? name with
  | none => simp [slotNames, pieces, piecesFrom, hvalue]
  | some found => simp [slotNames, pieces, piecesFrom, Piece.filled, hvalue]

/-! ## Using a parameter -/

/-- Wherever the slot of the name stands in the template, its value stands in the filled text,
between what the text before it and the text behind it become. -/
def Replaced (template name : Text) (bindings : Bindings) : Prop :=
  ∀ text, fill template bindings = .ok text →
    ∀ front back, template = front ++ (slotText name ++ back) →
      ∃ before value after, fill front bindings = .ok before ∧ bindings.get? name = some value ∧
        fill back bindings = .ok after ∧ text = before ++ (value ++ after)

/-- In every call that is accepted, the slot of the name is replaced or the template is refused. -/
def Definition.Usable (definition : Definition) (name : Text) : Prop :=
  ∀ call bindings, definition.resolve call = .ok bindings →
    Replaced definition.template name bindings

theorem replaced_of_isSlotName {template name : Text} (hname : IsSlotName name)
    (bindings : Bindings) :
    Replaced template name bindings := by
  rintro text hfill front back rfl
  obtain ⟨before, value, after, hbefore, hvalue, hafter, rfl⟩ := fill_around.mp hfill
  exact ⟨before, value, after, hbefore, (fill_slotText hname).mp hvalue, hafter, rfl⟩

/-- A call that gives a value to every parameter by name; only that of one parameter is chosen. -/
def Signature.callWith (signature : Signature) (name value : Text) : Call where
  name := signature.name
  named := signature.names.map fun other => (other, if other = name then value else ['x'])

/-- A call may give any value to a parameter. -/
theorem exists_resolve_callWith {signature : Signature} (hdistinct : signature.names.Nodup)
    (name value : Text) :
    ∃ bindings, signature.resolve (signature.callWith name value) = .ok bindings ∧
      ∀ other ∈ signature.names,
        bindings.get? other = some (if other = name then value else ['x']) := by
  have hkeys : Bindings.names (signature.callWith name value).named = signature.names := by
    rw [Signature.callWith, Bindings.names, List.map_map]
    exact List.map_id _
  have hopen : signature.openParameters (signature.callWith name value) = [] := by
    rw [Signature.openParameters, hkeys, List.filter_eq_nil_iff]
    intro parameter hparameter
    have hmem : parameter.name ∈ signature.names := List.mem_map_of_mem hparameter
    simpa using hmem
  have haccepts : signature.Accepts (signature.callWith name value) := by
    refine ⟨fun key hkey => hkeys ▸ hkey, Nat.zero_le _, fun i parameter hi => ?_⟩
    rw [hopen] at hi
    cases hi
  obtain ⟨bindings, hresolve, hvalue⟩ := exists_resolve_eq_ok hdistinct haccepts
  refine ⟨bindings, hresolve, fun other hother => ?_⟩
  have hnodup : (Bindings.names (signature.callWith name value).named).Nodup :=
    hkeys.symm ▸ hdistinct
  have hnamed : Bindings.get? (signature.callWith name value).named other =
      some (if other = name then value else ['x']) :=
    (lookup_eq_some_iff_mem hnodup).mpr (List.mem_map_of_mem hother)
  rw [hvalue, Signature.value?, hnamed, Option.some_or]

/-- A parameter is not usable if its value makes no difference. -/
theorem not_usable {definition : Definition} (hdistinct : definition.names.Nodup)
    (hslots : ∀ name, HasSlot definition.template name → name ∈ definition.names) {name : Text}
    (hmem : name ∈ definition.names) (hname : ¬ IsSlotName name)
    (hstands : slotText name <:+: definition.template) : ¬ definition.Usable name := by
  intro husable
  obtain ⟨front, back, hsplit⟩ := hstands
  rw [List.append_assoc] at hsplit
  obtain ⟨bindings, hresolve, hvalue⟩ := exists_resolve_callWith hdistinct name ['x']
  obtain ⟨bindings', hresolve', hvalue'⟩ := exists_resolve_callWith hdistinct name ['x', 'x']
  have hother {part : Text} (hpart : part <:+: definition.template) :
      fill part bindings = fill part bindings' := by
    refine fill_congr fun other hslot => ?_
    have hne : other ≠ name := by
      rintro rfl
      exact hname hslot.1
    have hknown := hslots other ⟨hslot.1, hslot.2.trans hpart⟩
    rw [hvalue other hknown, hvalue' other hknown, if_neg hne, if_neg hne]
  have hfill : ∃ text, fill definition.template bindings = .ok text := by
    refine ⟨_, fill_eq_ok fun other hother => ?_⟩
    rw [hvalue other (hslots other (mem_slotNames_iff.mp hother))]
    rfl
  obtain ⟨text, hfill⟩ := hfill
  obtain ⟨before, value, after, hbefore, hget, hafter, rfl⟩ :=
    husable _ _ hresolve text hfill front back hsplit.symm
  obtain ⟨before', value', after', hbefore', hget', hafter', hsame⟩ :=
    husable _ _ hresolve' _ ((hother (List.infix_refl _)).symm.trans hfill) front back hsplit.symm
  have hfront : front <:+: definition.template := hsplit ▸ (List.prefix_append _ _).isInfix
  have hback : back <:+: definition.template :=
    hsplit ▸ ((List.suffix_append _ _).trans (List.suffix_append _ _)).isInfix
  rw [hother hfront, hbefore'] at hbefore
  rw [hother hback, hafter'] at hafter
  rw [hvalue name hmem, if_pos rfl] at hget
  rw [hvalue' name hmem, if_pos rfl] at hget'
  cases hbefore
  cases hafter
  cases hget
  cases hget'
  have hlength := congrArg List.length hsame
  simp at hlength

end Directive

namespace Build

open Directive Text

/-- **A parameter can be used exactly if its name can be that of a slot.** Otherwise every place
where the template mentions it as a slot is wrong in some call, unless the template is refused in
all calls anyway. If no other slot is hidden in the name, `${p}` is left in the text in every
call. -/
theorem parameter_usable_iff {tree : FileTree} {home : Location} {path : Path}
    {definitions : Definitions} (hdefinitions : definitionsAt tree home path = .ok definitions)
    {definition : Definition} (hdefinition : definition ∈ definitions.directives) {name : Text}
    (hname : name ∈ definition.names) :
    (definition.Usable name ↔
      IsSlotName name ∨ ¬ slotText name <:+: definition.template ∨
        ∃ slot, HasSlot definition.template slot ∧ slot ∉ definition.names) ∧
    (¬ IsSlotName name → (∀ slot, ¬ HasSlot (slotText name) slot) →
      ∀ call bindings, definition.resolve call = .ok bindings →
        ∀ text, fill definition.template bindings = .ok text →
          ∀ front back, definition.template = front ++ (slotText name ++ back) →
            ∃ before after, fill front bindings = .ok before ∧ fill back bindings = .ok after ∧
              text = before ++ (slotText name ++ after)) := by
  have hproper := ((declared_of_definitionsAt hdefinitions).declared
    definition hdefinition).isProper
  refine ⟨⟨fun husable => ?_, ?_⟩, ?_⟩
  · by_contra hnone
    simp only [not_or, not_not, not_exists, not_and] at hnone
    obtain ⟨hnot, hstands, hslots⟩ := hnone
    exact not_usable hproper.parameters.distinct hslots hname hnot hstands husable
  · rintro (hslot | habsent | ⟨slot, hslot, hunknown⟩) call bindings hresolve
    · exact replaced_of_isSlotName hslot bindings
    · rintro text - front back hsplit
      refine absurd ⟨front, back, ?_⟩ habsent
      rw [hsplit, List.append_assoc]
    · intro text hfill
      have hvalue := (fill_eq_ok_iff.mp hfill).1 slot (mem_slotNames_iff.mpr hslot)
      rw [← mem_names_iff, mem_names_of_resolve hproper hresolve] at hvalue
      exact absurd hvalue hunknown
  · rintro - hnoSlot call bindings - text hfill front back hsplit
    rw [hsplit] at hfill
    obtain ⟨before, value, after, hbefore, hvalue, hafter, rfl⟩ := fill_around.mp hfill
    rw [fill_of_noSlot hnoSlot] at hvalue
    exact ⟨before, after, hbefore, hafter, by rw [Except.ok.inj hvalue]⟩

/-- A card with a title, and with a width whose name has a hyphen. -/
def hyphenCard : Definition where
  name := "card"
  parameters := [⟨"title", .required⟩, ⟨"min-width", .optional (some "10")⟩]
  template := "<b $\x7bmin-width\x7d>$\x7btitle\x7d</b>"

def hyphenBook : FileTree :=
  ⟨[(["d"], .file (Utf8.encode
    "[[card, title, min-width=10]] = <b $\x7bmin-width\x7d>$\x7btitle\x7d</b>"))]⟩

theorem parameter_usable_iff_hyphenCard :
    definitionsAt hyphenBook [] (.ofLocation ["d"]) = .ok ⟨[hyphenCard], []⟩ ∧
      hyphenCard.Usable "title" ∧ ¬ hyphenCard.Usable "min-width" := by
  have hdefinitions : definitionsAt hyphenBook [] (.ofLocation ["d"]) = .ok ⟨[hyphenCard], []⟩ := by
    decide +kernel
  have htitle : IsSlotName "title" :=
    ⟨'t', ['i', 't', 'l', 'e'], rfl, by decide, List.all_eq_true.mp (by decide)⟩
  have hhyphen : ¬ IsSlotName "min-width" := by
    rintro ⟨first, rest, hsplit, -, hrest⟩
    obtain ⟨-, rfl⟩ := List.cons.inj hsplit
    exact absurd (hrest '-' (by decide)) (by decide)
  have hslots : slotNames (pieces hyphenCard.template) = ["title"] := by decide
  refine ⟨hdefinitions, ?_, ?_⟩
  · exact (parameter_usable_iff hdefinitions List.mem_cons_self (by decide)).1.mpr (.inl htitle)
  · rw [(parameter_usable_iff hdefinitions List.mem_cons_self (by decide)).1]
    rintro (hname | habsent | ⟨slot, hslot, hunknown⟩)
    · exact hhyphen hname
    · exact habsent ⟨"<b ", ">$\x7btitle\x7d</b>", rfl⟩
    · rw [← mem_slotNames_iff, hslots] at hslot
      obtain rfl := List.mem_singleton.mp hslot
      exact hunknown (by decide)

/-- The hyphen keeps the slot of the width from being filled: the call is accepted and gives the
width a value, but the slot is left in the text and nothing is reported. -/
theorem not_usable_hyphen :
    definitionsAt hyphenBook [] (.ofLocation ["d"]) = .ok ⟨[hyphenCard], []⟩ ∧
      (hyphenCard.resolve ⟨"card", ["t", "9"], []⟩).map (Bindings.get? · "min-width") =
        .ok (some "9") ∧
      expand [hyphenCard] none .strict "[[card, t, 9]]" =
        .ok ⟨"<b $\x7bmin-width\x7d>t</b>", []⟩ := by
  decide +kernel

end Build

end Folio
