import Folio.Proofs.Outcome
import Folio.Proofs.Text.Cuts
import Folio.Proofs.Text.Sorted
import Folio.Settings

/-!
# Settings in layers

A config file is accepted exactly if none of its lines is faulty (`Faulty`). A setting is then the
value on the command line if there is one that is not empty, else the last value in the file, else
the default (`Layered`); and only a value on the command line can be blank. Main statement:
`settings_layered_iff`.

* `readSetting_cases`, `malformed_iff`, `assigns_iff`: what is read from a line;
* `reads_of_foldlM`, `exists_foldlM_readLine`: what is read from all lines, by induction on them;
* `exists_layered`, `Layered.unique`: a setting has one value.
-/

namespace Folio

open Text

/-! ## Lines of a config file -/

/-- The line is blank or a comment. -/
def IsRemark (line : Text) : Prop := strip line = [] ∨ (strip line).head? = some '#'

/-- What stands before and behind the first equals sign of the trimmed line. -/
structure Sides (line left right : Text) : Prop where
  split : strip line = left ++ '=' :: right
  first : '=' ∉ left

/-- The line gives a key a value. -/
inductive Assigns (line : Text) : (key value : Text) → Prop
  | intro {left right : Text} (remark : ¬ IsRemark line) (sides : Sides line left right)
      (key_ne_nil : strip left ≠ []) (value_ne_nil : strip right ≠ []) :
      Assigns line (strip left) (strip right)

/-- The line is no remark and gives no key a value. -/
inductive Malformed (line : Text) : Prop
  | noEquals (remark : ¬ IsRemark line) (h : '=' ∉ strip line)
  | emptyKey {left right : Text} (remark : ¬ IsRemark line) (sides : Sides line left right)
      (h : strip left = [])
  | emptyValue {left right : Text} (remark : ¬ IsRemark line) (sides : Sides line left right)
      (h : strip right = [])

/-- The line is malformed, or its key is not one of a setting. -/
def Faulty (line : Text) : Prop :=
  Malformed line ∨ ∃ key value, Assigns line key value ∧ ∀ setting : Setting, key ≠ setting.key

section Lines

variable {line key value : Text}

theorem readSetting_of_remark (h : IsRemark line) (place : Text) :
    readSetting place line = .ok none := by
  unfold readSetting
  dsimp only
  rw [if_pos]
  rcases h with h | h
  · simp [h]
  · simp [h]

theorem readSetting_of_not_remark (h : ¬ IsRemark line) (place : Text) :
    readSetting place line =
      match (strip line).cutAt ['='] with
      | none => .error (.noEquals place line)
      | some (left, right) =>
        if strip left = [] then .error (.emptyKey place line)
        else if strip right = [] then .error (.emptyValue place (strip left))
        else .ok (some (strip left, strip right)) := by
  unfold readSetting
  dsimp only
  rw [if_neg]
  · rfl
  · simpa [IsRemark] using h

theorem Sides.cutAt_eq {left right : Text} (h : Sides line left right) :
    (strip line).cutAt ['='] = some (left, right) :=
  cutAt_eq_some_iff.mpr ⟨h.split, h.first⟩

theorem sides_of_cutAt {left right : Text} (h : (strip line).cutAt ['='] = some (left, right)) :
    Sides line left right := by
  obtain ⟨hsplit, hfirst⟩ := cutAt_eq_some_iff.mp h
  exact ⟨hsplit, hfirst⟩

/-- What can be read from a line: nothing, a fault or an assignment. -/
theorem readSetting_cases (place line : Text) :
    readSetting place line = .ok none ∨
      (Malformed line ∧ ∃ error, readSetting place line = .error error) ∨
      ∃ key value, Assigns line key value ∧
        readSetting place line = .ok (some (key, value)) := by
  by_cases hremark : IsRemark line
  · exact .inl (readSetting_of_remark hremark place)
  · rw [readSetting_of_not_remark hremark]
    split
    · rename_i hcut
      exact .inr (.inl ⟨.noEquals hremark (cutAt_eq_none_iff.mp hcut), _, rfl⟩)
    · rename_i left right hcut
      have hsides := sides_of_cutAt hcut
      split_ifs with hkey hvalue
      · exact .inr (.inl ⟨.emptyKey hremark hsides hkey, _, rfl⟩)
      · exact .inr (.inl ⟨.emptyValue hremark hsides hvalue, _, rfl⟩)
      · exact .inr (.inr ⟨_, _, .intro hremark hsides hkey hvalue, rfl⟩)

theorem assigns_iff (place : Text) :
    Assigns line key value ↔ readSetting place line = .ok (some (key, value)) := by
  constructor
  · rintro ⟨hremark, hsides, hkey, hvalue⟩
    rw [readSetting_of_not_remark hremark, hsides.cutAt_eq]
    dsimp only
    rw [if_neg hkey, if_neg hvalue]
  · intro h
    rcases readSetting_cases place line with hnone | ⟨-, error, herror⟩ | ⟨_, _, hassigns, hread⟩
    · cases hnone.symm.trans h
    · cases herror.symm.trans h
    · cases hread.symm.trans h
      exact hassigns

theorem malformed_iff (place : Text) :
    Malformed line ↔ ∃ error, readSetting place line = .error error := by
  constructor
  · intro h
    cases h with
    | noEquals hremark hnone =>
      rw [readSetting_of_not_remark hremark, cutAt_eq_none_iff.mpr hnone]
      exact ⟨_, rfl⟩
    | emptyKey hremark hsides hkey =>
      rw [readSetting_of_not_remark hremark, hsides.cutAt_eq]
      dsimp only
      rw [if_pos hkey]
      exact ⟨_, rfl⟩
    | emptyValue hremark hsides hvalue =>
      rw [readSetting_of_not_remark hremark, hsides.cutAt_eq]
      dsimp only
      rw [if_pos hvalue]
      split_ifs
      · exact ⟨_, rfl⟩
      · exact ⟨_, rfl⟩
  · rintro ⟨error, h⟩
    rcases readSetting_cases place line with hnone | ⟨hmalformed, -⟩ | ⟨_, _, -, hread⟩
    · cases hnone.symm.trans h
    · exact hmalformed
    · cases hread.symm.trans h

/-- What a line assigns is trimmed and not empty. -/
theorem Assigns.value_not_blank (h : Assigns line key value) : strip value ≠ [] := by
  cases h with
  | intro _ _ _ hvalue => rwa [(trimmed_strip _).strip_eq]

end Lines

/-! ## All lines -/

/-- The last line that gives the key a value gives it this one. -/
inductive LastAssigns : List Text → (key value : Text) → Prop
  | intro {before after : List Text} {line key value : Text} (assigns : Assigns line key value)
      (last : ∀ later ∈ after, ∀ other, ¬ Assigns later key other) :
      LastAssigns (before ++ line :: after) key value

/-- No line gives the key a value. -/
def Unassigned (lines : List Text) (key : Text) : Prop :=
  ∀ line ∈ lines, ∀ value, ¬ Assigns line key value

section AllLines

variable {lines rest : List Text} {line key value : Text}

theorem lastAssigns_cons_iff :
    LastAssigns (line :: rest) key value ↔
      LastAssigns rest key value ∨ Assigns line key value ∧ Unassigned rest key := by
  constructor
  · generalize hall : line :: rest = all
    rintro @⟨before, after, last, _, _, hassigns, hlast⟩
    cases before with
    | nil =>
      cases hall
      exact .inr ⟨hassigns, hlast⟩
    | cons first before =>
      cases hall
      exact .inl ⟨hassigns, hlast⟩
  · rintro (@⟨before, after, last, _, _, hassigns, hlast⟩ | ⟨hassigns, hrest⟩)
    · rw [← List.cons_append]
      exact ⟨hassigns, hlast⟩
    · rw [← List.nil_append (line :: rest)]
      exact ⟨hassigns, hrest⟩

theorem unassigned_cons_iff :
    Unassigned (line :: rest) key ↔ (∀ value, ¬ Assigns line key value) ∧ Unassigned rest key :=
  List.forall_mem_cons

/-- A key that is given a value has a last one. -/
theorem exists_lastAssigns (h : ¬ Unassigned lines key) : ∃ value, LastAssigns lines key value := by
  induction lines with
  | nil => exact absurd (fun _ hline => absurd hline List.not_mem_nil) h
  | cons line rest ih =>
    by_cases hrest : Unassigned rest key
    · rw [unassigned_cons_iff, not_and_or, not_forall_not] at h
      obtain ⟨value, hvalue⟩ := h.resolve_right (not_not.mpr hrest)
      exact ⟨value, lastAssigns_cons_iff.mpr (.inr ⟨hvalue, hrest⟩)⟩
    · obtain ⟨value, hvalue⟩ := ih hrest
      exact ⟨value, lastAssigns_cons_iff.mpr (.inl hvalue)⟩

/-- A line gives no two keys a value, and no key two values. -/
theorem Assigns.unique {other found : Text} (h : Assigns line key value)
    (hother : Assigns line other found) : other = key ∧ found = value := by
  have hsame := ((assigns_iff []).mp hother).symm.trans ((assigns_iff []).mp h)
  simpa using hsame

theorem LastAssigns.exists_assigns (h : LastAssigns lines key value) :
    ∃ line ∈ lines, Assigns line key value := by
  cases h with
  | intro hassigns _ => exact ⟨_, List.mem_append_right _ List.mem_cons_self, hassigns⟩

theorem LastAssigns.not_unassigned (h : LastAssigns lines key value) : ¬ Unassigned lines key := by
  obtain ⟨line, hline, hassigns⟩ := h.exists_assigns
  exact fun hnone => hnone line hline value hassigns

theorem LastAssigns.unique {other : Text} (h : LastAssigns lines key value)
    (hother : LastAssigns lines key other) : other = value := by
  induction lines with
  | nil =>
    obtain ⟨line, hline, -⟩ := h.exists_assigns
    exact absurd hline List.not_mem_nil
  | cons line rest ih =>
    rcases lastAssigns_cons_iff.mp h with hlater | ⟨hassigns, hrest⟩
    · rcases lastAssigns_cons_iff.mp hother with hlater' | ⟨-, hrest⟩
      · exact ih hlater hlater'
      · exact absurd hrest hlater.not_unassigned
    · rcases lastAssigns_cons_iff.mp hother with hlater | ⟨hassigns', -⟩
      · exact absurd hrest hlater.not_unassigned
      · exact (hassigns.unique hassigns').2

end AllLines

namespace Bindings

theorem get?_set (bindings : Bindings) (name value other : Text) :
    (bindings.set name value).get? other =
      if other = name then some value else bindings.get? other := by
  unfold get?
  induction bindings with
  | nil =>
    by_cases h : other = name
    · simp [set, h]
    · simp [set, List.lookup_cons, beq_false_of_ne h, h]
  | cons first rest ih =>
    obtain ⟨old, kept⟩ := first
    rw [set]
    by_cases hother : other = name
    · rw [if_pos hother] at ih ⊢
      split_ifs with hold
      · rw [hother, List.lookup_cons_self]
      · rw [List.lookup_cons, beq_false_of_ne (hother ▸ Ne.symm hold)]
        exact ih
    · rw [if_neg hother] at ih ⊢
      split_ifs with hold
      · rw [List.lookup_cons, List.lookup_cons, hold, beq_false_of_ne hother]
      · rw [List.lookup_cons, List.lookup_cons, ih]

theorem mem_names_set (bindings : Bindings) (name value other : Text) :
    other ∈ (bindings.set name value).names ↔ other = name ∨ other ∈ bindings.names := by
  unfold names
  induction bindings with
  | nil => simp [set]
  | cons first rest ih =>
    obtain ⟨old, kept⟩ := first
    rw [set]
    split_ifs with hold
    · simp [hold]
    · simp only [List.map_cons, List.mem_cons, ih]
      tauto

end Bindings

/-! ## Reading a config file -/

/-- One line of `readConfig`. -/
def readLine (source : Text) (bindings : Bindings) (numbered : Text × Nat) :
    Except SettingError Bindings := do
  match ← readSetting (source ++ ":" ++ Text.ofNat numbered.2) numbered.1 with
  | none => return bindings
  | some (key, value) => return bindings.set key value

theorem readConfig_eq (source text : Text) :
    readConfig source text = (text.lines.zipIdx 1).foldlM (readLine source) [] := rfl

/-- What reading the lines does to the bindings. -/
structure Reads (lines : List Text) (before after : Bindings) : Prop where
  wellFormed : ∀ line ∈ lines, ¬ Malformed line
  assigned : ∀ key value, LastAssigns lines key value → after.get? key = some value
  kept : ∀ key, Unassigned lines key → after.get? key = before.get? key
  names : ∀ key, key ∈ after.names ↔ key ∈ before.names ∨ ¬ Unassigned lines key

section Reading

variable {source line : Text} {number : Nat} {lines : List Text} {before middle after : Bindings}

/-- A line that is read leaves the bindings as they are, or sets one of them. -/
theorem readLine_eq_ok (h : readLine source before (line, number) = .ok after) :
    ¬ Malformed line ∧
      ((∀ key value, ¬ Assigns line key value) ∧ after = before ∨
        ∃ key value, Assigns line key value ∧ after = before.set key value) := by
  obtain ⟨read, hread, h⟩ := bind_eq_ok_iff.mp h
  refine ⟨fun hmalformed => ?_, ?_⟩
  · obtain ⟨error, herror⟩ := (malformed_iff _).mp hmalformed
    cases herror.symm.trans hread
  · rcases read with _ | ⟨key, value⟩
    · refine .inl ⟨fun key value hassigns => ?_, (Except.ok.inj h).symm⟩
      cases ((assigns_iff _).mp hassigns).symm.trans hread
    · exact .inr ⟨key, value, (assigns_iff _).mpr hread, (Except.ok.inj h).symm⟩

theorem exists_readLine (source : Text) (number : Nat) (before : Bindings)
    (h : ¬ Malformed line) : ∃ after, readLine source before (line, number) = .ok after := by
  unfold readLine
  rcases hread : readSetting (source ++ ":" ++ Text.ofNat number) line with error | _ | ⟨key, value⟩
  · exact absurd ((malformed_iff _).mpr ⟨error, hread⟩) h
  · exact ⟨before, rfl⟩
  · exact ⟨before.set key value, rfl⟩

theorem Reads.cons (hline : readLine source before (line, number) = .ok middle)
    (hlines : Reads lines middle after) : Reads (line :: lines) before after := by
  obtain ⟨hformed, hcases⟩ := readLine_eq_ok hline
  refine ⟨List.forall_mem_cons.mpr ⟨hformed, hlines.wellFormed⟩, ?_, ?_, ?_⟩
  · intro key value hlast
    rcases lastAssigns_cons_iff.mp hlast with hlater | ⟨hassigns, hrest⟩
    · exact hlines.assigned key value hlater
    · rw [hlines.kept key hrest]
      rcases hcases with ⟨hnone, -⟩ | ⟨other, found, hother, rfl⟩
      · exact absurd hassigns (hnone key value)
      · obtain ⟨rfl, rfl⟩ := hassigns.unique hother
        rw [Bindings.get?_set, if_pos rfl]
  · intro key hnone
    obtain ⟨hfirst, hrest⟩ := unassigned_cons_iff.mp hnone
    rw [hlines.kept key hrest]
    rcases hcases with ⟨-, rfl⟩ | ⟨other, found, hother, rfl⟩
    · rfl
    · rw [Bindings.get?_set, if_neg]
      rintro rfl
      exact hfirst found hother
  · intro key
    rw [hlines.names, unassigned_cons_iff, not_and_or, not_forall_not]
    rcases hcases with ⟨hnone, rfl⟩ | ⟨other, found, hother, rfl⟩
    · have hfirst : ¬ ∃ value, Assigns line key value := fun ⟨value, h⟩ => hnone key value h
      tauto
    · have hfirst : (∃ value, Assigns line key value) ↔ key = other := by
        constructor
        · rintro ⟨value, h⟩
          exact (hother.unique h).1
        · rintro rfl
          exact ⟨found, hother⟩
      rw [Bindings.mem_names_set, hfirst]
      tauto

/-- Reading lines, by induction on them. -/
theorem reads_of_foldlM (h : (lines.zipIdx number).foldlM (readLine source) before = .ok after) :
    Reads lines before after := by
  induction lines generalizing number before with
  | nil =>
    obtain rfl := Except.ok.inj h
    refine ⟨fun _ hline => absurd hline List.not_mem_nil, ?_, fun _ _ => rfl, ?_⟩
    · intro key value hlast
      obtain ⟨line, hline, -⟩ := hlast.exists_assigns
      exact absurd hline List.not_mem_nil
    · intro key
      have hnone : Unassigned [] key := fun _ hline => absurd hline List.not_mem_nil
      tauto
  | cons line rest ih =>
    rw [List.zipIdx_cons, List.foldlM_cons] at h
    obtain ⟨middle, hline, hrest⟩ := bind_eq_ok_iff.mp h
    exact .cons hline (ih hrest)

theorem exists_foldlM_readLine (source : Text) (number : Nat) (before : Bindings)
    (h : ∀ line ∈ lines, ¬ Malformed line) :
    ∃ after, (lines.zipIdx number).foldlM (readLine source) before = .ok after := by
  induction lines generalizing number before with
  | nil => exact ⟨before, rfl⟩
  | cons line rest ih =>
    obtain ⟨hline, hrest⟩ := List.forall_mem_cons.mp h
    obtain ⟨middle, hmiddle⟩ := exists_readLine source number before hline
    obtain ⟨after, hafter⟩ := ih (number + 1) middle hrest
    rw [List.zipIdx_cons, List.foldlM_cons]
    exact ⟨after, bind_eq_ok_iff.mpr ⟨middle, hmiddle, hafter⟩⟩

end Reading

/-! ## Layers -/

/-- The value of a setting, by what the command line gives and the lines of the config file. -/
inductive Layered (given : Option Text) (lines : List Text) (setting : Setting) : Text → Prop
  | override {value : Text} (given_eq : given = some value) (ne_nil : value ≠ []) :
      Layered given lines setting value
  | file {value : Text} (notGiven : ∀ other, given = some other → other = [])
      (last : LastAssigns lines setting.key value) : Layered given lines setting value
  | default (notGiven : ∀ other, given = some other → other = [])
      (unassigned : Unassigned lines setting.key) : Layered given lines setting setting.default

/-- A value on the command line is blank, but not empty. -/
def BlankGiven (given : Setting → Option Text) : Prop :=
  ∃ setting value, given setting = some value ∧ value ≠ [] ∧ strip value = []

theorem Setting.mem_all (setting : Setting) : setting ∈ all := by
  cases setting <;> decide

theorem Setting.default_not_blank (setting : Setting) : strip setting.default ≠ [] := by
  cases setting <;> decide

section Layers

variable {source text : Text} {lines : List Text} {given : Setting → Option Text}
  {settings base : Settings} {config : Bindings}

theorem ofConfig_eq_ok_iff : Settings.ofConfig source config = .ok base ↔
    (∀ key ∈ config.names, ∃ setting : Setting, setting.key = key) ∧
      base = fun setting => (config.get? setting.key).getD setting.default := by
  have hunknown : Text.sortedSet (config.names.filter (· ∉ Setting.all.map (·.key))) = [] ↔
      ∀ key ∈ config.names, ∃ setting : Setting, setting.key = key := by
    simp [sortedSet_eq_nil_iff, Setting.mem_all]
  unfold Settings.ofConfig
  dsimp only
  split_ifs with h
  · constructor
    · intro hok
      cases hok
    · rintro ⟨hknown, -⟩
      exact absurd (hunknown.mpr hknown) h
  · rw [Except.ok.injEq, eq_comm, ← hunknown]
    tauto

theorem check_eq_ok_iff : Settings.check base = .ok settings ↔
    (∀ setting, strip (base setting) ≠ []) ∧ settings = base := by
  unfold Settings.check
  split
  · rename_i setting hfound
    constructor
    · intro hok
      cases hok
    · rintro ⟨hnone, -⟩
      have hblank := List.find?_some hfound
      exact absurd (of_decide_eq_true hblank) (hnone setting)
  · rename_i hnone
    rw [Except.ok.injEq, eq_comm]
    refine ⟨fun hsame => ⟨fun setting => ?_, hsame⟩, And.right⟩
    simpa using List.find?_eq_none.mp hnone setting setting.mem_all

theorem override_of_given {setting : Setting} {value : Text} (h : given setting = some value)
    (hne : value ≠ []) : base.override given setting = value := by
  obtain ⟨c, rest, rfl⟩ := List.exists_cons_of_ne_nil hne
  unfold Settings.override
  rw [h]

theorem override_of_not_given {setting : Setting}
    (h : ∀ other, given setting = some other → other = []) :
    base.override given setting = base setting := by
  unfold Settings.override
  split
  · rename_i c rest hgiven
    cases h _ hgiven
  · rfl

theorem exists_layered (given : Option Text) (lines : List Text) (setting : Setting) :
    ∃ value, Layered given lines setting value := by
  by_cases hgiven : ∀ other, given = some other → other = []
  · by_cases hunassigned : Unassigned lines setting.key
    · exact ⟨setting.default, .default hgiven hunassigned⟩
    · obtain ⟨value, hlast⟩ := exists_lastAssigns hunassigned
      exact ⟨value, .file hgiven hlast⟩
  · push Not at hgiven
    obtain ⟨value, hsome, hne⟩ := hgiven
    exact ⟨value, .override hsome hne⟩

theorem Layered.unique {given : Option Text} {setting : Setting} {value other : Text}
    (h : Layered given lines setting value) (hother : Layered given lines setting other) :
    other = value := by
  cases h with
  | override hsome hne =>
    cases hother with
    | override hsome' _ => exact Option.some.inj (hsome'.symm.trans hsome)
    | file hnone _ => exact absurd (hnone value hsome) hne
    | default hnone _ => exact absurd (hnone value hsome) hne
  | file hnone hlast =>
    cases hother with
    | override hsome hne => exact absurd (hnone other hsome) hne
    | file _ hlast' => exact hlast.unique hlast'
    | default _ hunassigned => exact absurd hunassigned hlast.not_unassigned
  | default hnone hunassigned =>
    cases hother with
    | override hsome hne => exact absurd (hnone other hsome) hne
    | file _ hlast => exact absurd hunassigned hlast.not_unassigned
    | default _ _ => rfl

/-- The layers as they are put on one another. -/
theorem Layered.eq_override (hreads : Reads lines [] config) {setting : Setting} {value : Text}
    (h : Layered (given setting) lines setting value) :
    value = Settings.override (fun setting => (config.get? setting.key).getD setting.default)
      given setting := by
  cases h with
  | override hgiven hne => exact (override_of_given hgiven hne).symm
  | file hnone hlast =>
    rw [override_of_not_given hnone, hreads.assigned _ _ hlast, Option.getD_some]
  | default hnone hunassigned =>
    rw [override_of_not_given hnone, hreads.kept _ hunassigned]
    rfl

/-- Neither a value in the file nor a default is blank. -/
theorem Layered.not_blank {setting : Setting} {value : Text} (hgiven : ¬ BlankGiven given)
    (h : Layered (given setting) lines setting value) : strip value ≠ [] := by
  cases h with
  | override hsome hne => exact fun hblank => hgiven ⟨setting, value, hsome, hne, hblank⟩
  | file _ hlast =>
    obtain ⟨line, -, hassigns⟩ := hlast.exists_assigns
    exact hassigns.value_not_blank
  | default _ _ => exact setting.default_not_blank

theorem Reads.not_faulty_iff (hreads : Reads lines [] config) :
    (∀ line ∈ lines, ¬ Faulty line) ↔
      ∀ key ∈ config.names, ∃ setting : Setting, setting.key = key := by
  constructor
  · intro h key hkey
    rcases (hreads.names key).mp hkey with hnil | hassigned
    · exact absurd hnil List.not_mem_nil
    · obtain ⟨value, hlast⟩ := exists_lastAssigns hassigned
      obtain ⟨line, hline, hassigns⟩ := hlast.exists_assigns
      by_contra hunknown
      exact h line hline (.inr ⟨key, value, hassigns, fun setting hsame =>
        hunknown ⟨setting, hsame.symm⟩⟩)
  · rintro h line hline (hmalformed | ⟨key, value, hassigns, hunknown⟩)
    · exact hreads.wellFormed line hline hmalformed
    · obtain ⟨setting, hsame⟩ :=
        h key ((hreads.names key).mpr (.inr fun hnone => hnone line hline value hassigns))
      exact hunknown setting hsame.symm

/-- The settings are read exactly if no line is faulty and no value on the command line is blank,
and each is then the topmost of its layers. -/
theorem settings_layered_iff :
    (∃ config base, readConfig source text = .ok config ∧
        Settings.ofConfig source config = .ok base ∧
        (base.override given).check = .ok settings) ↔
      (∀ line ∈ text.lines, ¬ Faulty line) ∧ ¬ BlankGiven given ∧
        ∀ setting, Layered (given setting) text.lines setting (settings setting) := by
  rw [readConfig_eq]
  constructor
  · rintro ⟨config, base, hread, hbase, hcheck⟩
    have hreads := reads_of_foldlM hread
    obtain ⟨hknown, rfl⟩ := ofConfig_eq_ok_iff.mp hbase
    obtain ⟨hfilled, rfl⟩ := check_eq_ok_iff.mp hcheck
    refine ⟨hreads.not_faulty_iff.mpr hknown, ?_, fun setting => ?_⟩
    · rintro ⟨setting, value, hgiven, hne, hblank⟩
      refine hfilled setting ?_
      rwa [override_of_given hgiven hne]
    · obtain ⟨value, hlayered⟩ := exists_layered (given setting) text.lines setting
      rwa [← hlayered.eq_override hreads]
  · rintro ⟨hlines, hgiven, hlayered⟩
    have hformed : ∀ line ∈ text.lines, ¬ Malformed line :=
      fun line hline hmalformed => hlines line hline (.inl hmalformed)
    obtain ⟨config, hread⟩ := exists_foldlM_readLine source 1 [] hformed
    have hreads := reads_of_foldlM hread
    refine ⟨config, _, hread, ofConfig_eq_ok_iff.mpr ⟨hreads.not_faulty_iff.mp hlines, rfl⟩, ?_⟩
    have hsettings setting := (hlayered setting).eq_override hreads
    refine check_eq_ok_iff.mpr ⟨fun setting => ?_, funext hsettings⟩
    rw [← hsettings setting]
    exact (hlayered setting).not_blank hgiven

end Layers

end Folio
