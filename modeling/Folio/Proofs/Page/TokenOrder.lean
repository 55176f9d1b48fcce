import Folio.Directive.Definitions
import Folio.Proofs.Directive.ResolvedValues
import Folio.Proofs.Page.InTurn
import Folio.Proofs.Text.FirstLine
import Mathlib.Data.Set.List

/-!
# The order of token rules

Tokens are replaced one after another, and each turn reads what the turns before it have put in. The
order of the rules does not matter if no replacement can take part in a token. A replacement
*blocks* a token (`Blocks`) if occurrences of the token never reach into it; it does so if it has no
bracket and a character that the token does not have (`blocks_of_foreign`).

Tokens with names that are free of brackets are separate (`separate_token`). If the replacements
block all tokens of the rules, each turn finds its token where it stood in the beginning
(`foundInTurn_of_blocks`), so the turns together give what one pass from the left gives
(`replaceAtOnce_eq_filled`).

The main result is `substitute_order_free`.
-/

namespace Folio

namespace Text

/-! ## Texts that no occurrence reaches into -/

/-- No occurrence of the word reaches into the text, whatever stands around it. -/
def Blocks (word text : Text) : Prop :=
  ∀ front back, occurrences word (front ++ (text ++ back)) =
    occurrences word front + occurrences word back

/-- A word is not found where its first character is missing. -/
theorem occurrences_append_of_not_mem {word text : Text} {first : Char}
    (hfirst : word.head? = some first) (htext : first ∉ text) (back : Text) :
    occurrences word (text ++ back) = occurrences word back := by
  induction text with
  | nil => rfl
  | cons c text ih =>
    obtain ⟨hc, htext⟩ := not_or.mp (mt List.mem_cons.mpr htext)
    have hnone : ¬ word <+: c :: (text ++ back) := by
      rintro ⟨after, hafter⟩
      obtain ⟨rest, rfl⟩ := List.head?_eq_some_iff.mp hfirst
      exact hc (List.cons.inj hafter).1
    rw [List.cons_append, occurrences_cons_neg hnone, ih htext]

/-- An occurrence that reaches into the text would begin in it, end in it, or cover it. -/
theorem blocks_of_foreign {word text : Text} {first last foreign : Char}
    (hfirst : word.head? = some first) (hlast : word.getLast? = some last) (htext : first ∉ text)
    (htext' : last ∉ text) (hforeign : foreign ∈ text) (hword : foreign ∉ word) :
    Blocks word text := by
  intro front back
  induction front with
  | nil =>
    rw [List.nil_append, occurrences_append_of_not_mem hfirst htext, occurrences, Nat.zero_add]
  | cons c front ih =>
    have hiff : word <+: c :: (front ++ (text ++ back)) ↔ word <+: c :: front := by
      constructor
      · intro hbegins
        rw [← List.cons_append] at hbegins
        rcases List.prefix_or_prefix_of_prefix hbegins (List.prefix_append _ _) with
          hshort | ⟨more, rfl⟩
        · exact hshort
        · by_cases hmore : more = []
          · rw [hmore, List.append_nil]
          · have hmore' : more <+: text ++ back := (List.prefix_append_right_inj _).mp hbegins
            rw [List.getLast?_append_of_ne_nil _ hmore] at hlast
            rcases List.prefix_or_prefix_of_prefix hmore' (List.prefix_append _ _) with
              hends | hcovers
            · exact absurd (hends.subset (List.mem_of_getLast? hlast)) htext'
            · exact absurd (List.mem_append_right _ (hcovers.subset hforeign)) hword
      · intro hbegins
        exact hbegins.trans (List.prefix_append (c :: front) _)
    by_cases hbegins : word <+: c :: front
    · rw [List.cons_append, occurrences_cons_pos (hiff.mpr hbegins),
        occurrences_cons_pos hbegins, ih]
      omega
    · rw [List.cons_append, occurrences_cons_neg (mt hiff.mp hbegins),
        occurrences_cons_neg hbegins, ih]

theorem stripRight_stripRight (text : Text) : stripRight (stripRight text) = stripRight text := by
  obtain ⟨right, hright, hblank⟩ := exists_stripRight text
  rw [← stripRight_append hblank, ← hright]

theorem prefix_of_stripRight (text : Text) : stripRight text <+: text := by
  obtain ⟨right, hright, -⟩ := exists_stripRight text
  exact ⟨right, hright.symm⟩

end Text

namespace Page

open Text Directive

/-! ## Turns that do not disturb each other -/

section Blocked

variable {ι : Type} [DecidableEq ι] {mark value filling : ι → Text} {order : List ι} {cut : Cut ι}

/-- Among blocking texts a mark stands in its own places only, if these have not been filled. -/
theorem occurrences_filled (h : Separate mark) {i : ι}
    (hfree : ∀ stretch ∈ cut.stretches, Free mark stretch)
    (hfilling : ∀ j, filling j = mark j ∨ Blocks (mark i) (filling j)) :
    occurrences (mark i) (cut.filled filling) =
      if filling i = mark i then cut.marks.count i else 0 := by
  have hnone {stretch : Text} (hstretch : Free mark stretch) : occurrences (mark i) stretch = 0 :=
    (occurrences_eq_zero_iff (h.ne_nil i)).mpr (hstretch i)
  induction cut with
  | last stretch =>
    rw [Cut.filled, hnone (List.forall_mem_singleton.mp hfree), Cut.marks, List.count_nil, ite_self]
  | next stretch j rest ih =>
    obtain ⟨hstretch, hrest⟩ := List.forall_mem_cons.mp hfree
    rw [Cut.filled, Cut.marks, List.count_cons]
    by_cases hj : filling j = mark j
    · rw [hj, h.occurrences_append, hnone hstretch, ih hrest, Nat.zero_add]
      by_cases hsame : j = i
      · subst hsame
        simp only [hj, beq_self_eq_true, if_true]
        omega
      · simp [hsame, Ne.symm hsame]
    · have hne : filling i = mark i → j ≠ i := by
        rintro hi rfl
        exact hj hi
      rw [(hfilling j).resolve_left hj, hnone hstretch, ih hrest, Nat.zero_add]
      by_cases hi : filling i = mark i
      · simp [hi, hne hi]
      · simp [hi]

/-- If the values block the marks, each turn finds its mark where it stood in the beginning. -/
theorem foundInTurn_of_blocks (h : Separate mark)
    (hfree : ∀ stretch ∈ cut.stretches, Free mark stretch) (hnodup : order.Nodup)
    (hfilling : ∀ j, filling j = mark j ∨ ∀ i ∈ order, Blocks (mark i) (filling j))
    (horder : ∀ i ∈ order, filling i = mark i)
    (hvalue : ∀ i ∈ order, ∀ j ∈ order, Blocks (mark i) (value j)) :
    FoundInTurn mark value (cut.marks.count ·) order (cut.filled filling) := by
  induction order generalizing filling with
  | nil => trivial
  | cons i order ih =>
    obtain ⟨hi, hnodup⟩ := List.nodup_cons.mp hnodup
    obtain ⟨hself, horder⟩ := List.forall_mem_cons.mp horder
    have hfirst : occurrences (mark i) (cut.filled filling) = cut.marks.count i := by
      rw [occurrences_filled h hfree fun j => (hfilling j).imp_right fun hj =>
        hj i List.mem_cons_self, if_pos hself]
    refine ⟨hfirst, ?_⟩
    rw [Cut.replace_filled h hself (value i) hfirst]
    refine ih hnodup (fun j => ?_) (update_eq_mark hi horder _) fun k hk j hj =>
      hvalue k (List.mem_cons_of_mem _ hk) j (List.mem_cons_of_mem _ hj)
    by_cases hsame : j = i
    · subst hsame
      rw [Function.update_self]
      exact .inr fun k hk => hvalue k (List.mem_cons_of_mem _ hk) j List.mem_cons_self
    · rw [Function.update_of_ne hsame]
      exact (hfilling j).imp_right fun hj k hk => hj k (List.mem_cons_of_mem _ hk)

end Blocked

/-! ## Tokens -/

/-- A name that a token can have without being mixed up with others: it has no brackets. -/
@[ext] structure TokenName where
  name : Text
  ne_nil : name ≠ []
  noOpening : '[' ∉ name
  noClosing : ']' ∉ name
  deriving DecidableEq

/-- The token with a name. -/
def TokenName.token (token : TokenName) : Text := tokenOf token.name

theorem tokenOf_eq (name : Text) : tokenOf name = '[' :: '[' :: (name ++ [']', ']']) := rfl

theorem tokenOf_ne_nil (name : Text) : tokenOf name ≠ [] := List.cons_ne_nil _ _

theorem getLast?_tokenOf (name : Text) : (tokenOf name).getLast? = some ']' := by
  rw [tokenOf, List.getLast?_append_of_ne_nil _ (by decide)]
  rfl

/-- The name of a token is what stands before the first closing bracket. -/
theorem TokenName.takeWhile_append (token : TokenName) (rest : Text) :
    (token.name ++ ']' :: rest).takeWhile (· ≠ ']') = token.name := by
  have hname : ∀ c ∈ token.name, decide (c ≠ ']') = true := by
    intro c hc
    rw [decide_eq_true_eq]
    rintro rfl
    exact token.noClosing hc
  rw [List.takeWhile_append_of_pos hname, List.takeWhile_cons_of_neg (by simp), List.append_nil]

/-- Behind the first character of a token no two opening brackets follow each other. -/
theorem separate_token : Separate TokenName.token where
  ne_nil := fun i => List.cons_ne_nil _ _
  eq_of_begins := by
    rintro i j ⟨after, hafter⟩
    have hnames : i.name ++ ']' :: ']' :: after = j.name ++ ']' :: [']'] := by
      simpa [TokenName.token, tokenOf_eq] using hafter
    have hsame := congrArg (List.takeWhile (· ≠ ']')) hnames
    rw [i.takeWhile_append, j.takeWhile_append] at hsame
    exact TokenName.ext hsame
  apart := by
    intro i j front back hsplit hfront hback
    obtain ⟨d, front, rfl⟩ := List.exists_cons_of_ne_nil hfront
    obtain ⟨c, back, rfl⟩ := List.exists_cons_of_ne_nil hback
    obtain ⟨-, hsplit⟩ : '[' = d ∧ '[' :: (i.name ++ [']', ']']) = front ++ c :: back :=
      List.cons.inj hsplit
    rw [TokenName.token, tokenOf_eq]
    cases front with
    | nil =>
      -- The rest begins with one bracket, and the name follows.
      obtain ⟨first, others, hname⟩ := List.exists_cons_of_ne_nil i.ne_nil
      obtain ⟨-, rfl⟩ := List.cons.inj hsplit
      have hne : first ≠ '[' := by
        rintro rfl
        exact i.noOpening (hname ▸ List.mem_cons_self)
      rw [hname]
      constructor
      · intro hbegins
        exact hne (List.cons_prefix_cons.mp (List.cons_prefix_cons.mp hbegins).2).1
      · intro hbegins
        exact hne (List.cons_prefix_cons.mp (List.cons_prefix_cons.mp hbegins).2).1.symm
    | cons e front =>
      obtain ⟨-, hsplit⟩ := List.cons.inj hsplit
      have hne : c ≠ '[' := by
        rintro rfl
        have hmem : '[' ∈ i.name ++ [']', ']'] :=
          hsplit ▸ List.mem_append_right _ List.mem_cons_self
        rcases List.mem_append.mp hmem with hmem | hmem
        · exact i.noOpening hmem
        · exact absurd hmem (by decide)
      constructor
      · intro hbegins
        exact hne (List.cons_prefix_cons.mp hbegins).1
      · intro hbegins
        exact hne (List.cons_prefix_cons.mp hbegins).1.symm

/-- What a token becomes; without a rule it stays. -/
def replacementOf (rules : Bindings) (token : TokenName) : Text :=
  (rules.get? token.token).getD token.token

/-- All tokens of the rules have names without brackets. -/
def PlainTokens (rules : Bindings) : Prop := ∀ rule ∈ rules, ∃ i : TokenName, i.token = rule.1

theorem token_injective : Function.Injective TokenName.token := by
  intro i j hsame
  exact separate_token.eq_of_begins (hsame ▸ List.prefix_refl _)

theorem replacementOf_of_not_mem {rules : Bindings} {i : TokenName} (h : i.token ∉ rules.names) :
    replacementOf rules i = i.token := by
  rw [mem_names_iff, Option.not_isSome_iff_eq_none] at h
  rw [replacementOf, h, Option.getD_none]

theorem replacementOf_of_mem {rules : Bindings} (hdistinct : rules.names.Nodup) {i : TokenName}
    {rule : Text × Text} (hrule : rule ∈ rules) (htoken : i.token = rule.1) :
    replacementOf rules i = rule.2 := by
  have hlookup : rules.get? rule.1 = some rule.2 := (lookup_eq_some_iff_mem hdistinct).mpr hrule
  rw [replacementOf, htoken, hlookup, Option.getD_some]

/-- Rules for distinct tokens are the rules for an order of names. -/
theorem exists_rulesFor {rules : Bindings} (htokens : PlainTokens rules)
    (hdistinct : rules.names.Nodup) :
    ∃ order : List TokenName, order.Nodup ∧ (∀ i, i ∈ order ↔ i.token ∈ rules.names) ∧
      rulesFor TokenName.token (replacementOf rules) order = rules := by
  obtain ⟨order, horder⟩ : rules.names ∈ Set.range (List.map TokenName.token) := by
    rw [Set.range_list_map]
    intro token htoken
    obtain ⟨rule, hrule, rfl⟩ := List.mem_map.mp htoken
    exact htokens rule hrule
  refine ⟨order, .of_map _ (horder ▸ hdistinct), fun i => ?_, ?_⟩
  · rw [← horder, List.mem_map_of_injective token_injective]
  · have hrules : rulesFor TokenName.token (replacementOf rules) order =
        (order.map TokenName.token).map fun token => (token, (rules.get? token).getD token) := by
      rw [List.map_map]
      rfl
    rw [hrules, horder, Bindings.names, List.map_map]
    refine (List.map_congr_left fun rule hrule => ?_).trans (List.map_id _)
    have hlookup : rules.get? rule.1 = some rule.2 := (lookup_eq_some_iff_mem hdistinct).mpr hrule
    rw [Function.comp_apply, hlookup]
    rfl

/-- Replacing tokens in turn fills a cut if each token is found where the cut has it. -/
theorem replaceAll_eq_filled_of_foundInTurn {rules : Bindings} (htokens : PlainTokens rules)
    (hdistinct : rules.names.Nodup) {cut : Cut TokenName}
    (hfound : ∀ order : List TokenName, order.Nodup → (∀ i ∈ order, i.token ∈ rules.names) →
      FoundInTurn TokenName.token (replacementOf rules) (cut.marks.count ·) order
        (cut.filled TokenName.token)) :
    replaceAll rules (cut.filled TokenName.token) = cut.filled (replacementOf rules) := by
  obtain ⟨order, hnodup, hmem, hrules⟩ := exists_rulesFor htokens hdistinct
  have hfilled := replaceAll_eq_filled separate_token hnodup (fun _ _ => rfl)
    (hfound order hnodup fun i hi => (hmem i).mp hi)
  rw [hrules] at hfilled
  rw [hfilled]
  congr 1
  funext i
  split
  · rfl
  · rename_i hi
    exact (replacementOf_of_not_mem (mt (hmem i).mpr hi)).symm

/-! ## One pass -/

/-- The first rule whose token stands at the beginning of a text. -/
def ruleAt? (rules : Bindings) (text : Text) : Option (Text × Text) :=
  rules.find? fun rule => rule.1.isPrefixOf text

/-- Replace tokens in one pass from the left, after dropping the characters that a token found
earlier still covers. -/
def replaceAtOnceFrom (rules : Bindings) : (covered : Nat) → Text → Text
  | _, [] => []
  | covered + 1, _ :: rest => replaceAtOnceFrom rules covered rest
  | 0, c :: rest =>
    match ruleAt? rules (c :: rest) with
    | some (token, replacement) => replacement ++ replaceAtOnceFrom rules (token.length - 1) rest
    | none => c :: replaceAtOnceFrom rules 0 rest

/-- Replace all tokens of a text in one pass. What is put in is not looked at again. -/
def replaceAtOnce (rules : Bindings) (text : Text) : Text := replaceAtOnceFrom rules 0 text

section OnePass

variable {rules : Bindings}

theorem replaceAtOnceFrom_eq_drop (rules : Bindings) (covered : Nat) (text : Text) :
    replaceAtOnceFrom rules covered text = replaceAtOnce rules (text.drop covered) := by
  induction covered generalizing text with
  | zero => rfl
  | succ covered ih =>
    cases text with
    | nil => rfl
    | cons c rest => rw [replaceAtOnceFrom, ih, List.drop_succ_cons]

/-- A stretch in which no token begins is passed over. -/
theorem replaceAtOnce_stretch {stretch rest : Text}
    (h : ∀ back, back <:+ stretch → back ≠ [] → ∀ rule ∈ rules, ¬ rule.1 <+: back ++ rest) :
    replaceAtOnce rules (stretch ++ rest) = stretch ++ replaceAtOnce rules rest := by
  induction stretch with
  | nil => rfl
  | cons c stretch ih =>
    have hnone : ruleAt? rules (c :: (stretch ++ rest)) = none := by
      refine List.find?_eq_none.mpr fun rule hrule hbegins => ?_
      exact h _ (List.suffix_refl _) (List.cons_ne_nil _ _) rule hrule
        (List.isPrefixOf_iff_prefix.mp hbegins)
    rw [List.cons_append, replaceAtOnce, replaceAtOnceFrom, hnone, List.cons_append,
      ← ih fun back hback => h back (hback.trans (List.suffix_cons _ _))]
    rfl

/-- A token that begins a text is replaced by what its rule gives; without a rule it is passed
over. -/
theorem replaceAtOnce_token (htokens : PlainTokens rules) (i : TokenName) (rest : Text) :
    replaceAtOnce rules (i.token ++ rest) = replacementOf rules i ++ replaceAtOnce rules rest := by
  have hfound : ∀ rule ∈ rules, rule.1 <+: i.token ++ rest → rule.1 = i.token := by
    intro rule hrule hbegins
    obtain ⟨j, hj⟩ := htokens rule hrule
    rw [← hj, ← List.nil_append (i.token ++ rest)] at hbegins
    rcases separate_token.prefix_append hbegins with hnil | ⟨-, rfl⟩
    · exact absurd (List.prefix_nil.mp hnil) (separate_token.ne_nil j)
    · exact hj.symm
  by_cases hmem : i.token ∈ rules.names
  · obtain ⟨value, hvalue⟩ := Option.isSome_iff_exists.mp (mem_names_iff.mp hmem)
    obtain ⟨earlier, later, hsplit, hearlier⟩ := List.lookup_eq_some_iff.mp hvalue
    have hrule : ruleAt? rules (i.token ++ rest) = some (i.token, value) := by
      refine List.find?_eq_some_iff_append.mpr ⟨?_, earlier, later, hsplit, fun rule hrule => ?_⟩
      · exact List.isPrefixOf_iff_prefix.mpr (List.prefix_append _ _)
      · rw [Bool.not_eq_true', Bool.eq_false_iff, ne_eq, List.isPrefixOf_iff_prefix]
        intro hbegins
        have hne : i.token ≠ rule.1 := by simpa using hearlier rule hrule
        exact hne (hfound rule (by rw [hsplit]; exact List.mem_append_left _ hrule) hbegins).symm
    obtain ⟨c, others, htoken⟩ := List.exists_cons_of_ne_nil (separate_token.ne_nil i)
    rw [replacementOf, hvalue, Option.getD_some]
    rw [htoken] at hrule ⊢
    rw [List.cons_append] at hrule ⊢
    rw [replaceAtOnce, replaceAtOnceFrom, hrule]
    dsimp only
    rw [replaceAtOnceFrom_eq_drop, List.length_cons, Nat.add_sub_cancel, List.drop_left]
  · rw [replacementOf_of_not_mem hmem]
    refine replaceAtOnce_stretch fun back hback hne rule hrule hbegins => ?_
    obtain ⟨front, hfront⟩ := hback
    by_cases hnil : front = []
    · subst hnil
      rw [List.nil_append] at hfront
      rw [hfront] at hbegins
      exact hmem (hfound rule hrule hbegins ▸ List.mem_map_of_mem hrule)
    · obtain ⟨j, hj⟩ := htokens rule hrule
      exact separate_token.not_prefix_within j rest hfront.symm hnil hne (hj ▸ hbegins)

theorem replaceAtOnce_eq_filled (htokens : PlainTokens rules) {cut : Cut TokenName} {text : Text}
    (hcut : cut.IsOf TokenName.token text) :
    replaceAtOnce rules text = cut.filled (replacementOf rules) := by
  obtain ⟨rfl, hfree⟩ := hcut
  induction cut with
  | last stretch =>
    have hstretch := List.forall_mem_singleton.mp hfree
    have hpass : replaceAtOnce rules (stretch ++ []) = stretch ++ replaceAtOnce rules [] := by
      refine replaceAtOnce_stretch fun back hback _ rule hrule hbegins => ?_
      obtain ⟨j, hj⟩ := htokens rule hrule
      rw [List.append_nil, ← hj] at hbegins
      exact hstretch j (hbegins.isInfix.trans hback.isInfix)
    rw [List.append_nil] at hpass
    exact hpass.trans (List.append_nil _)
  | next stretch i rest ih =>
    obtain ⟨hstretch, hrest⟩ := List.forall_mem_cons.mp hfree
    rw [Cut.filled, replaceAtOnce_stretch, replaceAtOnce_token htokens, ih hrest, Cut.filled]
    intro back hback hne rule hrule hbegins
    obtain ⟨j, hj⟩ := htokens rule hrule
    rw [← hj] at hbegins
    rcases separate_token.prefix_append hbegins with hwithin | ⟨hnil, -⟩
    · exact hstretch j (hwithin.isInfix.trans hback.isInfix)
    · exact hne hnil

end OnePass

/-! ## Any order -/

/-- Rules for tokens without brackets in their names, whose replacements have no brackets either,
and each of them a character that is in no token. -/
structure Isolated (rules : Bindings) : Prop where
  ne_nil : rules ≠ []
  distinct : rules.names.Nodup
  token : ∀ rule ∈ rules, ∃ name, name ≠ [] ∧ '[' ∉ name ∧ ']' ∉ name ∧ rule.1 = tokenOf name
  noBracket : ∀ rule ∈ rules, '[' ∉ rule.2 ∧ ']' ∉ rule.2
  foreign : ∀ rule ∈ rules, ∃ c ∈ rule.2, ∀ other ∈ rules, c ∉ other.1

namespace Isolated

variable {rules other : Bindings}

theorem plainTokens (h : Isolated rules) : PlainTokens rules := by
  intro rule hrule
  obtain ⟨name, hne, hopening, hclosing, htoken⟩ := h.token rule hrule
  exact ⟨⟨name, hne, hopening, hclosing⟩, htoken.symm⟩

theorem perm (h : Isolated rules) (hperm : other.Perm rules) : Isolated other where
  ne_nil := fun hnil => h.ne_nil (List.nil_perm.mp (hnil ▸ hperm))
  distinct := (hperm.map _).nodup_iff.mpr h.distinct
  token := fun rule hrule => h.token rule (hperm.mem_iff.mp hrule)
  noBracket := fun rule hrule => h.noBracket rule (hperm.mem_iff.mp hrule)
  foreign := by
    intro rule hrule
    obtain ⟨c, hc, hforeign⟩ := h.foreign rule (hperm.mem_iff.mp hrule)
    exact ⟨c, hc, fun other hother => hforeign other (hperm.mem_iff.mp hother)⟩

theorem blocks (h : Isolated rules) {i j : TokenName} (hi : i.token ∈ rules.names)
    (hj : j.token ∈ rules.names) : Blocks i.token (replacementOf rules j) := by
  obtain ⟨rule, hrule, hrule'⟩ := List.mem_map.mp hi
  obtain ⟨source, hsource, hsource'⟩ := List.mem_map.mp hj
  obtain ⟨hopening, hclosing⟩ := h.noBracket source hsource
  obtain ⟨c, hc, hforeign⟩ := h.foreign source hsource
  rw [replacementOf_of_mem h.distinct hsource hsource'.symm]
  exact blocks_of_foreign rfl (getLast?_tokenOf i.name) hopening hclosing hc
    (hrule' ▸ hforeign rule hrule)

/-- The turns together fill the cut of the text at its tokens. -/
theorem replaceAll_eq_filled (h : Isolated rules) {cut : Cut TokenName} {text : Text}
    (hcut : cut.IsOf TokenName.token text) :
    replaceAll rules text = cut.filled (replacementOf rules) := by
  rw [← hcut.filled]
  refine replaceAll_eq_filled_of_foundInTurn h.plainTokens h.distinct fun order hnodup horder => ?_
  exact foundInTurn_of_blocks separate_token hcut.free hnodup (fun _ => .inl rfl) (fun _ _ => rfl)
    fun i hi j hj => h.blocks (horder i hi) (horder j hj)

/-- No token with a rule is left. -/
theorem not_infix_filled (h : Isolated rules) {cut : Cut TokenName} {text : Text}
    (hcut : cut.IsOf TokenName.token text) {i : TokenName} (hi : i.token ∈ rules.names) :
    ¬ i.token <:+: cut.filled (replacementOf rules) := by
  have hne : replacementOf rules i ≠ i.token := by
    obtain ⟨rule, hrule, htoken⟩ := List.mem_map.mp hi
    rw [replacementOf_of_mem h.distinct hrule htoken.symm]
    intro hsame
    exact (h.noBracket rule hrule).1 (hsame ▸ List.mem_cons_self)
  rw [← occurrences_eq_zero_iff (separate_token.ne_nil i),
    occurrences_filled separate_token hcut.free fun j => ?_, if_neg hne]
  by_cases hj : j.token ∈ rules.names
  · exact .inr (h.blocks hi hj)
  · exact .inl (replacementOf_of_not_mem hj)

end Isolated

/-- **The order of the rules does not matter.** If no replacement can take part in a token,
replacing the tokens one after another is one pass over the text. So the rules can be put into any
order, no token of theirs is left, and a second run changes nothing. -/
theorem substitute_order_free {rules : Bindings} (h : Isolated rules) (text : Text) :
    substitute rules text = stripRight (replaceAtOnce rules text) ∧
      (∀ other : Bindings, other.Perm rules → substitute other text = substitute rules text) ∧
      (∀ rule ∈ rules, ¬ rule.1 <:+: substitute rules text) ∧
      substitute rules (substitute rules text) = substitute rules text := by
  obtain ⟨cut, hcut⟩ := exists_isOf separate_token.ne_nil text
  have hsubstitute {rules : Bindings} (h : Isolated rules) :
      substitute rules text = stripRight (cut.filled (replacementOf rules)) := by
    rw [substitute_eq, if_neg h.ne_nil, h.replaceAll_eq_filled hcut]
  have habsent : ∀ rule ∈ rules, ¬ rule.1 <:+: substitute rules text := by
    intro rule hrule hwithin
    obtain ⟨i, hi⟩ := h.plainTokens rule hrule
    rw [hsubstitute h, ← hi] at hwithin
    exact h.not_infix_filled hcut (hi ▸ List.mem_map_of_mem hrule)
      (hwithin.trans (prefix_of_stripRight _).isInfix)
  refine ⟨?_, fun other hperm => ?_, habsent, ?_⟩
  · rw [hsubstitute h, replaceAtOnce_eq_filled h.plainTokens hcut]
  · have hsame : replacementOf other = replacementOf rules := by
      funext i
      rw [replacementOf, replacementOf, get?_of_perm hperm h.distinct]
    rw [hsubstitute (h.perm hperm), hsubstitute h, hsame]
  · have hne : ∀ rule ∈ rules, rule.1 ≠ [] := by
      intro rule hrule
      obtain ⟨i, hi⟩ := h.plainTokens rule hrule
      exact hi ▸ separate_token.ne_nil i
    rw [substitute_eq, if_neg h.ne_nil, replaceAll_of_absent hne habsent, hsubstitute h,
      stripRight_stripRight]

/-- Each replacement is the name of the other token and a mark. -/
def crossedRules : Bindings := [("[[a]]", "b!"), ("[[b]]", "a!")]

theorem isolated_crossedRules : Isolated crossedRules where
  ne_nil := List.cons_ne_nil _ _
  distinct := by decide
  token := by
    intro rule hrule
    rcases List.mem_pair.mp hrule with rfl | rfl
    · exact ⟨"a", by decide, by decide, by decide, rfl⟩
    · exact ⟨"b", by decide, by decide, by decide, rfl⟩
  noBracket := by decide
  foreign := by
    intro rule hrule
    rcases List.mem_pair.mp hrule with rfl | rfl
    · exact ⟨'!', by decide, by decide⟩
    · exact ⟨'!', by decide, by decide⟩

/-- In brackets a replacement looks like a token, but is none. -/
theorem substitute_order_free_crossedRules :
    Isolated crossedRules ∧
      substitute crossedRules "[[[[a]]]][[b]]] \n" = "[[b!]]a!]" ∧
      substitute crossedRules.reverse "[[[[a]]]][[b]]] \n" = "[[b!]]a!]" := by
  obtain ⟨hpass, hperm, -, -⟩ := substitute_order_free isolated_crossedRules "[[[[a]]]][[b]]] \n"
  have hresult : substitute crossedRules "[[[[a]]]][[b]]] \n" = "[[b!]]a!]" :=
    hpass.trans (by decide)
  exact ⟨isolated_crossedRules, hresult, (hperm _ (List.reverse_perm _)).trans hresult⟩

end Page

end Folio
