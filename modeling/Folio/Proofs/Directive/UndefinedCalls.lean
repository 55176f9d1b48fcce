import Folio.Proofs.Directive.ErrorModes

/-!
# Calls of directives that are not defined

A directive that is not defined is left as it is, but only if its arguments can be read: they are
read before its name is looked up. So a line with such a directive is harmless exactly if every item
behind its name is closed and not blank, and the arguments that are given by name have a key and a
value, no key twice (`harmless_iff_legible`). Which directives are defined makes no difference.

A comma with nothing behind it is enough for a failure (`not_harmless_aside`).
-/

namespace Folio

namespace Directive

open Text

/-! ## What is written -/

/-- The text between the brackets of a directive. -/
def between (directive : Text) : Text := (directive.drop 2).take (directive.length - 4)

/-- The name of a directive as it is written: what stands before the first comma, trimmed. -/
def writtenName (directive : Text) : Text := strip ((between directive).takeWhile (· ≠ ','))

/-- What is written behind the first comma, if there is one. -/
def argumentText? (directive : Text) : Option Text :=
  ((strip (between directive)).dropWhile (· ≠ ',')).tail?

/-- The key of an item that gives an argument by name. -/
def key? (item : Text) : Option Text := (item.cutAt "=").map fun (left, _) => strip left

/-- If the item gives an argument by name, there is a key and a value. -/
def CompleteItem (item : Text) : Prop :=
  ∀ sides ∈ item.cutAt "=", strip sides.1 ≠ [] ∧ strip sides.2 ≠ []

/-- The items can be arguments of one call. -/
structure Legible (arguments : List Text) : Prop where
  complete : ∀ item ∈ arguments, CompleteItem item
  distinct : (arguments.filterMap key?).Nodup

/-- What is written behind the name of a directive is a list of items that can be arguments. -/
def LegibleArguments (directive : Text) : Prop :=
  ∀ text ∈ argumentText? directive, ∃ arguments, items text = .ok arguments ∧ Legible arguments

/-! ## The name -/

theorem isBlank_ne_comma {c : Char} (h : isBlank c = true) : decide (c ≠ ',') = true := by
  rw [decide_eq_true_eq]
  rintro rfl
  exact absurd h (by decide)

/-- The name is the same whether the text between the brackets is trimmed before or not. -/
theorem writtenName_eq (directive : Text) :
    writtenName directive = strip ((strip (between directive)).takeWhile (· ≠ ',')) := by
  unfold writtenName
  obtain ⟨left, right, hsplit, hleft, hright, htrimmed⟩ := exists_padded (between directive)
  generalize strip (between directive) = inner at hsplit htrimmed
  rw [hsplit, List.takeWhile_append_of_pos fun c hc => isBlank_ne_comma (hleft c hc)]
  by_cases hcomma : ',' ∈ inner
  · -- the padding behind the text is not reached
    have hshort : (inner ++ right).takeWhile (· ≠ ',') = inner.takeWhile (· ≠ ',') := by
      rw [List.takeWhile_append, if_neg]
      intro hlength
      have hall := List.takeWhile_eq_self_iff.mp
        ((List.takeWhile_prefix _).eq_of_length hlength) ',' hcomma
      simp at hall
    obtain ⟨before, after, hpadded, hbefore, hafter, hname⟩ :=
      exists_padded (inner.takeWhile (· ≠ ','))
    rw [hshort, hpadded, ← List.append_assoc,
      strip_padded (List.forall_mem_append.mpr ⟨hleft, hbefore⟩) hname hafter,
      strip_padded hbefore hname hafter]
  · have hall : ∀ c ∈ inner, decide (c ≠ ',') = true := by
      intro c hc
      rw [decide_eq_true_eq]
      rintro rfl
      exact hcomma hc
    have hright' : ∀ c ∈ right, decide (c ≠ ',') = true :=
      fun c hc => isBlank_ne_comma (hright c hc)
    rw [List.takeWhile_eq_self_iff.mpr hall,
      List.takeWhile_eq_self_iff.mpr (List.forall_mem_append.mpr ⟨hall, hright'⟩),
      strip_padded hleft htrimmed hright, htrimmed.strip_eq]

/-- A stretch without commas and quotes is read as it is. -/
theorem scanItems_plain {plain : Text} (h : ∀ c ∈ plain, c ≠ '"' ∧ c ≠ ',') (begun rest : Text) :
    scanItems .outside begun (plain ++ rest) =
      scanItems .outside (plain.reverse ++ begun) rest := by
  induction plain generalizing begun with
  | nil => rfl
  | cons c plain ih =>
    obtain ⟨⟨hquote, hcomma⟩, hplain⟩ := List.forall_mem_cons.mp h
    rw [List.cons_append, scanItems, if_neg hquote, if_neg hcomma, ih hplain]
    simp

theorem closeItem_of_ne {item : Text} (h : strip item ≠ []) :
    closeItem item = .ok (strip item) := by
  unfold closeItem
  dsimp only
  rw [if_neg h]

/-- The first item is the name; the others are read from what stands behind its comma. -/
theorem items_of_name {inner : Text} (hquote : '"' ∉ inner.takeWhile (· ≠ ','))
    (hname : strip (inner.takeWhile (· ≠ ',')) ≠ []) :
    items inner =
      match (inner.dropWhile (· ≠ ',')).tail? with
      | none => .ok [strip (inner.takeWhile (· ≠ ','))]
      | some rest => (items rest).map (strip (inner.takeWhile (· ≠ ',')) :: ·) := by
  have hplain : ∀ c ∈ inner.takeWhile (· ≠ ','), c ≠ '"' ∧ c ≠ ',' := by
    intro c hc
    refine ⟨fun hsame => hquote (hsame ▸ hc), ?_⟩
    simpa using List.mem_takeWhile_imp hc
  have hclose := closeItem_of_ne hname
  have hhead := List.head?_dropWhile_not (fun c => decide (c ≠ ',')) inner
  have hscan := scanItems_plain hplain [] (inner.dropWhile (· ≠ ','))
  rw [List.takeWhile_append_dropWhile, List.append_nil] at hscan
  unfold items
  rw [hscan]
  cases hrest : inner.dropWhile (· ≠ ',') with
  | nil =>
    rw [scanItems, List.reverse_reverse, hclose]
    rfl
  | cons c rest =>
    rw [hrest] at hhead
    obtain rfl : c = ',' := by simpa using hhead
    rw [scanItems, if_neg (by decide), if_pos rfl, List.reverse_reverse, hclose]
    rfl

/-! ## The arguments -/

theorem key?_eq_none {item : Text} (h : item.cutAt "=" = none) : key? item = none := by
  unfold key?
  rw [h]
  rfl

theorem key?_eq_some {item left right : Text} (h : item.cutAt "=" = some (left, right)) :
    key? item = some (strip left) := by
  unfold key?
  rw [h]
  rfl

/-- An argument is accepted if it is complete and its key is new. -/
theorem exists_addArgument_iff (inner : Text) (call : Call) (item : Text) :
    (∃ next, call.addArgument inner item = .ok next) ↔
      CompleteItem item ∧ ∀ key ∈ key? item, key ∉ call.named.map (·.1) := by
  unfold Call.addArgument
  cases hcut : item.cutAt "=" with
  | none =>
    rw [key?_eq_none hcut]
    refine ⟨fun _ => ⟨?_, ?_⟩, fun _ => ⟨_, rfl⟩⟩
    · intro sides hsides
      rw [hcut] at hsides
      cases hsides
    · intro key hkey
      cases hkey
  | some cut =>
    obtain ⟨left, right⟩ := cut
    rw [key?_eq_some hcut]
    dsimp only
    have hcomplete : CompleteItem item ↔ strip left ≠ [] ∧ strip right ≠ [] := by
      constructor
      · intro h
        exact h (left, right) hcut
      · intro h sides hsides
        rw [hcut] at hsides
        cases hsides
        exact h
    rw [hcomplete]
    split_ifs with hkey hvalue hold
    · simp [hkey]
    · simp [hvalue]
    · refine ⟨fun ⟨_, h⟩ => (nomatch h), fun h => ?_⟩
      exact absurd hold (h.2 _ rfl)
    · refine ⟨fun _ => ⟨⟨hkey, hvalue⟩, ?_⟩, fun _ => ⟨_, rfl⟩⟩
      rintro key ⟨⟩
      exact hold

theorem of_addArgument {inner item : Text} {call next : Call}
    (h : call.addArgument inner item = .ok next) :
    next.name = call.name ∧ next.named.map (·.1) = call.named.map (·.1) ++ (key? item).toList := by
  unfold Call.addArgument at h
  cases hcut : item.cutAt "=" with
  | none =>
    rw [hcut] at h
    obtain rfl := Except.ok.inj h
    rw [key?_eq_none hcut]
    exact ⟨rfl, by simp⟩
  | some cut =>
    obtain ⟨left, right⟩ := cut
    rw [hcut] at h
    dsimp only at h
    split_ifs at h
    obtain rfl := Except.ok.inj h
    rw [key?_eq_some hcut]
    exact ⟨rfl, by simp⟩

/-- Arguments are accepted one after another if all are complete and no key comes twice. -/
theorem exists_foldlM_addArgument_iff (inner : Text) (arguments : List Text) (call : Call)
    (hkeys : (call.named.map (·.1)).Nodup) :
    (∃ read, arguments.foldlM (Call.addArgument inner) call = .ok read) ↔
      (∀ item ∈ arguments, CompleteItem item) ∧
        (call.named.map (·.1) ++ arguments.filterMap key?).Nodup := by
  induction arguments generalizing call with
  | nil => simpa [pure, Except.pure] using hkeys
  | cons item rest ih =>
    have hsplit : (item :: rest).filterMap key? = (key? item).toList ++ rest.filterMap key? := by
      cases hkey : key? item with
      | none => simp [hkey]
      | some key => simp [hkey]
    rw [List.foldlM_cons, List.forall_mem_cons, hsplit, ← List.append_assoc]
    constructor
    · rintro ⟨read, hread⟩
      obtain ⟨next, hnext, hrest⟩ := bind_eq_ok_iff.mp hread
      obtain ⟨hcomplete, hnew⟩ := (exists_addArgument_iff inner call item).mp ⟨next, hnext⟩
      obtain ⟨-, hnamed⟩ := of_addArgument hnext
      have hnodup : (next.named.map (·.1)).Nodup := by
        rw [hnamed, List.nodup_append]
        refine ⟨hkeys, ?_, ?_⟩
        · cases key? item <;> simp
        · rintro key hold other hother rfl
          exact hnew key (by simpa using hother) hold
      obtain ⟨hall, hdistinct⟩ := (ih next hnodup).mp ⟨read, hrest⟩
      rw [hnamed] at hdistinct
      exact ⟨⟨hcomplete, hall⟩, hdistinct⟩
    · rintro ⟨⟨hcomplete, hall⟩, hdistinct⟩
      have hfirst := (List.nodup_append.mp hdistinct).1
      have hnew : ∀ key ∈ key? item, key ∉ call.named.map (·.1) := by
        intro key hkey hold
        exact (List.nodup_append.mp hfirst).2.2 key hold key (by simpa using hkey) rfl
      obtain ⟨next, hnext⟩ := (exists_addArgument_iff inner call item).mpr ⟨hcomplete, hnew⟩
      obtain ⟨-, hnamed⟩ := of_addArgument hnext
      rw [← hnamed] at hfirst hdistinct
      obtain ⟨read, hread⟩ := (ih next hfirst).mpr ⟨hall, hdistinct⟩
      exact ⟨read, bind_eq_ok_iff.mpr ⟨next, hnext, hread⟩⟩

theorem name_of_foldlM_addArgument {inner : Text} {arguments : List Text} {call read : Call}
    (h : arguments.foldlM (Call.addArgument inner) call = .ok read) : read.name = call.name := by
  have hkept : Outcome (arguments.foldlM (Call.addArgument inner) call)
      (·.name = call.name) (fun _ => True) := by
    refine .foldlM rfl fun item _ middle hmiddle => ⟨fun next hnext => ?_, fun _ _ => trivial⟩
    exact (of_addArgument hnext).1.trans hmiddle
  exact hkept.1 read h

/-- How a call with a plainly written name is read. -/
theorem parse_written {directive : Text} (hname : writtenName directive ≠ [])
    (hquote : '"' ∉ writtenName directive) :
    Call.parse (strip (between directive)) =
      match argumentText? directive with
      | none => .ok { name := writtenName directive }
      | some text => items text >>= fun arguments =>
        arguments.foldlM (Call.addArgument (strip (between directive)))
          { name := writtenName directive } := by
  have heq := writtenName_eq directive
  unfold argumentText?
  generalize strip (between directive) = inner at heq
  rw [heq] at hname hquote ⊢
  have hplain : '"' ∉ inner.takeWhile (· ≠ ',') := by
    intro hmem
    obtain ⟨left, right, hsplit, hleft, hright, -⟩ := exists_padded (inner.takeWhile (· ≠ ','))
    rw [hsplit] at hmem
    rcases List.mem_append.mp hmem with hmem | hmem
    · exact absurd (hleft _ hmem) (by decide)
    · rcases List.mem_append.mp hmem with hmem | hmem
      · exact hquote hmem
      · exact absurd (hright _ hmem) (by decide)
  have hself : strip (strip (inner.takeWhile (· ≠ ','))) = strip (inner.takeWhile (· ≠ ',')) :=
    (trimmed_strip _).strip_eq
  unfold Call.parse
  rw [items_of_name hplain hname]
  generalize strip (inner.takeWhile (· ≠ ',')) = name at hname hself
  cases (inner.dropWhile (· ≠ ',')).tail? with
  | none =>
    simp only [bind, Except.bind]
    rw [hself, if_neg hname]
    rfl
  | some rest =>
    dsimp only
    cases items rest with
    | error cause => rfl
    | ok arguments =>
      simp only [Except.map, bind, Except.bind]
      rw [hself, if_neg hname]

theorem name_of_parse {directive : Text} {call : Call} (hname : writtenName directive ≠ [])
    (hquote : '"' ∉ writtenName directive)
    (h : Call.parse (strip (between directive)) = .ok call) :
    call.name = writtenName directive := by
  rw [parse_written hname hquote] at h
  split at h
  · rw [← Except.ok.inj h]
  · obtain ⟨arguments, -, hread⟩ := bind_eq_ok_iff.mp h
    exact name_of_foldlM_addArgument hread

/-- A call with a plainly written name can be read exactly if its arguments are legible. -/
theorem exists_parse_iff {directive : Text} (hname : writtenName directive ≠ [])
    (hquote : '"' ∉ writtenName directive) :
    (∃ call, Call.parse (strip (between directive)) = .ok call) ↔ LegibleArguments directive := by
  have hlegible : ∀ arguments, (∃ read, arguments.foldlM
      (Call.addArgument (strip (between directive))) { name := writtenName directive } =
        .ok read) ↔ Legible arguments := by
    intro arguments
    refine (exists_foldlM_addArgument_iff _ arguments { name := writtenName directive }
      List.nodup_nil).trans ?_
    exact ⟨fun h => ⟨h.1, h.2⟩, fun h => ⟨h.complete, h.distinct⟩⟩
  unfold LegibleArguments
  rw [parse_written hname hquote]
  cases argumentText? directive with
  | none => exact ⟨fun _ _ htext => (nomatch htext), fun _ => ⟨_, rfl⟩⟩
  | some text =>
    simp only [bind_eq_ok_iff, Option.mem_some_iff, forall_eq', ← hlegible]
    constructor
    · rintro ⟨read, arguments, hitems, hread⟩
      exact ⟨arguments, hitems, read, hread⟩
    · rintro ⟨arguments, hitems, read, hread⟩
      exact ⟨read, arguments, hitems, hread⟩

/-! ## The line -/

/-- The line stays as it is in every mode and wherever it stands, and is no failure. -/
def Harmless (definitions : List Definition) (line : Text) : Prop :=
  ∀ source mode number, contribution definitions source mode line number = [line] ∧
    failure? definitions source line number = none

theorem harmless_of_kept {definitions : List Definition} {line : Text}
    (h : lineOutcome definitions line = .kept) : Harmless definitions line := by
  intro source mode number
  rw [contribution_eq, failure?_eq, h]
  exact ⟨rfl, rfl⟩

/-- A text of harmless lines stays as it is, but for the kind of its line breaks. -/
theorem expand_of_harmless {definitions : List Definition} {text : Text}
    (h : ∀ line ∈ text.lines, Harmless definitions line) (source : Option Text)
    (mode : ErrorMode) :
    expand definitions source mode text =
      .ok ⟨unlines text.lines ++ (if text.getLast? = some '\n' then ['\n'] else []), []⟩ := by
  have hlines : ∀ numbered ∈ text.lines.zipIdx 1, Harmless definitions numbered.1 := by
    rintro ⟨line, number⟩ hmem
    exact h line (List.fst_mem_of_mem_zipIdx hmem)
  have hfailures : failures definitions source text = [] := by
    rw [failures, List.filterMap_eq_nil_iff]
    intro numbered hmem
    exact (hlines numbered hmem source .strict numbered.2).2
  have hassemble : assemble definitions source mode text =
      unlines text.lines ++ (if text.getLast? = some '\n' then ['\n'] else []) := by
    have hflat : ((text.lines.zipIdx 1).flatMap fun numbered =>
        contribution definitions source mode numbered.1 numbered.2) = text.lines := by
      rw [List.flatMap_congr fun numbered hmem => (hlines numbered hmem source mode numbered.2).1,
        ← List.map_eq_flatMap, List.zipIdx_map_fst]
    unfold assemble
    exact congrArg (unlines · ++ _) hflat
  cases mode with
  | strict => rw [expand_strict, hfailures, hassemble]
  | report embed => rw [expand_report, hfailures, hassemble]

/-- A line with a call that can be read stays as it is if the call names no directive. -/
theorem lineOutcome_of_undefined {definitions : List Definition} {line directive inner : Text}
    {call : Call} (hline : wholeLine? line = some directive)
    (hinner : unbracket directive = .ok inner)
    (hcall : Call.parse inner = .ok call)
    (hundefined : ∀ definition ∈ definitions, definition.name ≠ call.name) :
    lineOutcome definitions line = .kept := by
  have hnone : definitions.find? (·.name == call.name) = none := by
    rw [List.find?_eq_none]
    intro definition hmem
    simpa using hundefined definition hmem
  unfold lineOutcome expandCall
  rw [hline]
  simp only [hinner, hcall, bind, Except.bind, hnone]
  rfl

section Undefined

variable {definitions : List Definition} {line directive : Text}

theorem of_wholeLine? (h : wholeLine? line = some directive) :
    unbracket directive = if strip (between directive) = [] then .error (.emptyDirective directive)
      else .ok (strip (between directive)) := by
  obtain ⟨rfl, hopening, hclosing, -⟩ := wholeLine?_eq_some_iff.mp h
  unfold unbracket between
  dsimp only
  rw [(trimmed_strip _).strip_eq, List.isPrefixOf_iff_prefix.mpr hopening,
    List.isSuffixOf_iff_suffix.mpr hclosing]
  rfl

/-- What becomes of the line depends on whether its call can be read, and on nothing else. -/
theorem lineOutcome_undefined (hline : wholeLine? line = some directive)
    (hname : writtenName directive ≠ []) (hquote : '"' ∉ writtenName directive)
    (hundefined : ∀ definition ∈ definitions, definition.name ≠ writtenName directive) :
    (LegibleArguments directive → lineOutcome definitions line = .kept) ∧
      (¬ LegibleArguments directive →
        ∃ cause, lineOutcome definitions line = .failed cause) := by
  have hinner : strip (between directive) ≠ [] := by
    intro hnil
    refine hname ?_
    rw [writtenName_eq, hnil]
    rfl
  have hunbracket := of_wholeLine? hline
  rw [if_neg hinner] at hunbracket
  have hparse := exists_parse_iff hname hquote
  constructor
  · intro hlegible
    obtain ⟨call, hcall⟩ := hparse.mpr hlegible
    refine lineOutcome_of_undefined hline hunbracket hcall ?_
    rwa [name_of_parse hname hquote hcall]
  · intro hillegible
    cases hcall : Call.parse (strip (between directive)) with
    | error cause =>
      refine ⟨cause, lineOutcome_eq_failed_iff.mpr ⟨directive, hline, ?_⟩⟩
      unfold expandCall
      rw [hunbracket]
      simp only [bind, Except.bind, hcall]
    | ok call => exact absurd (hparse.mp ⟨call, hcall⟩) hillegible

/-- A line that fails makes a strict run fail, and a run that goes on report it. -/
theorem runs_of_failed {cause : DirectiveError}
    (hfailed : lineOutcome definitions line = .failed cause)
    {text : Text} (hmem : line ∈ text.lines) (source : Option Text) :
    (∃ error, expand definitions source .strict text = .error error) ∧
      ∀ embed, ∃ run, expand definitions source (.report embed) text = .ok run ∧
        run.errors ≠ [] := by
  have hfails : fails definitions line = true :=
    (fails_eq_true_iff definitions).mpr ⟨cause, hfailed⟩
  have hcount : 0 < (failures definitions source text).length := by
    rw [length_failures, List.countP_pos_iff]
    exact ⟨line, hmem, hfails⟩
  have hsome : failures definitions source text ≠ [] := List.length_pos_iff.mp hcount
  refine ⟨?_, fun embed => ⟨_, expand_report definitions source embed text, hsome⟩⟩
  obtain ⟨first, rest, hfirst⟩ := List.exists_cons_of_ne_nil hsome
  refine ⟨first, ?_⟩
  rw [expand_strict, hfirst]

/-- **A directive that is not defined is harmless exactly if its arguments are legible.** If they
are, a text without other directives stays as it is. If they are not, every text with such a line
fails in a strict run, and the failure is reported in one that goes on. -/
theorem harmless_iff_legible (hline : wholeLine? line = some directive)
    (hname : writtenName directive ≠ []) (hquote : '"' ∉ writtenName directive)
    (hundefined : ∀ definition ∈ definitions, definition.name ≠ writtenName directive) :
    (Harmless definitions line ↔ LegibleArguments directive) ∧
      (LegibleArguments directive → ∀ text : Text,
        (∀ other ∈ text.lines, other = line ∨ wholeLine? other = none) → ∀ source mode,
          expand definitions source mode text =
            .ok ⟨unlines text.lines ++ (if text.getLast? = some '\n' then ['\n'] else []), []⟩) ∧
      (¬ LegibleArguments directive → ∀ text : Text, line ∈ text.lines → ∀ source,
        (∃ error, expand definitions source .strict text = .error error) ∧
          ∀ embed, ∃ run, expand definitions source (.report embed) text = .ok run ∧
            run.errors ≠ []) := by
  obtain ⟨hkept, hfailed⟩ := lineOutcome_undefined hline hname hquote hundefined
  refine ⟨⟨?_, ?_⟩, ?_, ?_⟩
  · intro hharmless
    by_contra hillegible
    obtain ⟨cause, hcause⟩ := hfailed hillegible
    have hnone := (hharmless none .strict 1).2
    unfold failure? examineLine ExaminedLine.error? at hnone
    rw [hcause] at hnone
    cases hnone
  · intro hlegible
    exact harmless_of_kept (hkept hlegible)
  · intro hlegible text hothers source mode
    refine expand_of_harmless (fun other hother => harmless_of_kept ?_) source mode
    rcases hothers other hother with rfl | hplain
    · exact hkept hlegible
    · unfold lineOutcome
      rw [hplain]
  · intro hillegible text hmem source
    obtain ⟨cause, hcause⟩ := hfailed hillegible
    exact runs_of_failed hcause hmem source

end Undefined

/-- An undefined directive with arguments by position and by name is left as it is. -/
theorem harmless_aside : Harmless [] " [[aside, \"a,b\", k=v]] " ∧
    LegibleArguments "[[aside, \"a,b\", k=v]]" := by
  have hlegible : LegibleArguments "[[aside, \"a,b\", k=v]]" := by
    intro text htext
    obtain rfl : (" \"a,b\", k=v" : Text) = text :=
      Option.some.inj (Eq.trans (by decide) (Option.mem_def.mp htext))
    refine ⟨["a,b", "k=v"], by decide, ?_, by decide⟩
    unfold CompleteItem
    decide
  exact ⟨(harmless_iff_legible (by decide) (by decide) (by decide) (by decide)).1.mpr hlegible,
    hlegible⟩

/-- A comma with nothing behind it makes an undefined directive fail, though nothing is defined. -/
theorem not_harmless_aside :
    wholeLine? "[[aside,]]" = some "[[aside,]]" ∧ writtenName "[[aside,]]" = ("aside" : Text) ∧
      expand [] none .strict "[[aside,]]" = .error ⟨"line 1", .emptyItem⟩ := by
  decide

end Directive

end Folio
