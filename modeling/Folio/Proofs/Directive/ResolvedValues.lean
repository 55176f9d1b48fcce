import Folio.Proofs.Directive.Resolution
import Mathlib.Data.List.Sort

/-!
# The values and the errors of a call

What resolving a call gives is told by the parameters that the call does not name, in the order of
the signature (`openParameters`), and by the number of values given by position: the first open
parameters take these values, one each, and the others have their defaults. A required parameter
among the others is without a value (`unassigned`).

* `resolve_eq`: the three errors, of which an earlier one hides a later one, and the values.
* `sorted_resolve_of_perm`: in which order arguments are named does not matter.
* `resolves_by_signature` collects the rules in `ResolvesBySignature`.
-/

namespace Folio.Directive

variable {signature : Signature} {call : Call} {bindings : Bindings}

/-- The names in a call that no parameter has. -/
def Signature.unknownNames (signature : Signature) (call : Call) : List Text :=
  Text.sortedSet ((Bindings.names call.named).filter (· ∉ signature.names))

/-- The required parameters that a call leaves without a value, in order. -/
def Signature.unassigned (signature : Signature) (call : Call) : List Parameter :=
  ((signature.openParameters call).drop call.positional.length).filter (·.isRequired)

/-- The values given by name, over those given by position, over the defaults. -/
def Signature.layers (signature : Signature) (call : Call) : Bindings :=
  call.named ++ (signature.unnamed call.named).zip call.positional ++ signature.defaults

/-! ## Resolving -/

/-- The members of a sublist are found again in a list that has no member twice. -/
theorem filter_mem_of_sublist {α : Type} [DecidableEq α] {part whole : List α}
    (hpart : part.Sublist whole) (hnodup : whole.Nodup) : whole.filter (· ∈ part) = part := by
  induction hpart with
  | slnil => rfl
  | @cons part whole first hpart ih =>
    obtain ⟨hfirst, hrest⟩ := List.nodup_cons.mp hnodup
    have hout : first ∉ part := fun hmem => hfirst (hpart.subset hmem)
    rw [List.filter_cons_of_neg (by simpa using hout), ih hrest]
  | @cons_cons part whole first hpart ih =>
    obtain ⟨hfirst, hrest⟩ := List.nodup_cons.mp hnodup
    have hsame : whole.filter (· ∈ first :: part) = whole.filter (· ∈ part) := by
      refine List.filter_congr fun other hother => ?_
      have hne : other ≠ first := fun h => hfirst (h ▸ hother)
      simp [hne]
    rw [List.filter_cons_of_pos (by simp), hsame, ih hrest]

theorem mem_drop_iff {α : Type} {list : List α} {n : Nat} {member : α} :
    member ∈ list.drop n ↔ ∃ i, list[i]? = some member ∧ n ≤ i := by
  rw [List.mem_iff_getElem?]
  constructor
  · rintro ⟨i, hi⟩
    rw [List.getElem?_drop] at hi
    exact ⟨n + i, hi, Nat.le_add_right _ _⟩
  · rintro ⟨i, hi, hn⟩
    refine ⟨i - n, ?_⟩
    rwa [List.getElem?_drop, Nat.add_sub_cancel' hn]

/-- Once there is room for the values given by position, the parameters that are found missing are
the unassigned ones. -/
theorem missing_eq_unassigned (call : Call) (hnodup : signature.names.Nodup)
    (hroom : call.positional.length ≤ (signature.openParameters call).length) :
    (((signature.parameters.filter (·.isRequired)).map (·.name)).filter fun name =>
      (Bindings.get? (signature.layers call) name).isNone) =
      (signature.unassigned call).map (·.name) := by
  have hparameters : signature.parameters.Nodup := List.Nodup.of_map _ hnodup
  have hpart : (signature.unassigned call).Sublist (signature.parameters.filter (·.isRequired)) :=
    ((List.drop_sublist _ _).trans List.filter_sublist).filter _
  rw [← filter_mem_of_sublist hpart (hparameters.filter _), List.filter_map]
  refine congrArg _ (List.filter_congr fun parameter hparameter => ?_)
  obtain ⟨hmem, hrequired⟩ := List.mem_filter.mp hparameter
  rw [Function.comp_apply, Signature.layers, get?_layers _ hnodup hroom, Bool.eq_iff_iff,
    Option.isNone_iff_eq_none, value?_required hnodup hmem hrequired, decide_eq_true_iff,
    Signature.unassigned, List.mem_filter, mem_drop_iff, and_iff_left hrequired]

theorem resolve_eq (call : Call) (hnodup : signature.names.Nodup) :
    signature.resolve call =
      if signature.unknownNames call ≠ [] then
        .error (.unknownArguments signature.name (signature.unknownNames call))
      else if (signature.openParameters call).length < call.positional.length then
        .error (.tooManyArguments signature.name call.positional.length
          signature.parameters.length)
      else if signature.unassigned call ≠ [] then
        .error (.missingArguments signature.name ((signature.unassigned call).map (·.name)))
      else .ok (signature.layers call) := by
  have hlength : (signature.unnamed call.named).length =
      (signature.openParameters call).length := by
    rw [unnamed_eq_map_openParameters call hnodup, List.length_map]
  have hmissing := missing_eq_unassigned call hnodup
  unfold Signature.layers at hmissing
  unfold Signature.resolve Signature.unknownNames Signature.layers
  dsimp only
  rw [hlength]
  by_cases hmany : (signature.openParameters call).length < call.positional.length
  · rw [if_pos hmany, if_pos hmany]
  · simp only [if_neg hmany, hmissing (not_lt.mp hmany), ne_eq, List.map_eq_nil_iff]

theorem unassigned_eq_nil_iff :
    signature.unassigned call = [] ↔ ∀ i parameter,
      (signature.openParameters call)[i]? = some parameter → parameter.isRequired = true →
        i < call.positional.length := by
  simp only [Signature.unassigned, List.filter_eq_nil_iff, mem_drop_iff]
  constructor
  · intro h i parameter hi hrequired
    by_contra hlength
    exact h parameter ⟨i, hi, not_lt.mp hlength⟩ hrequired
  · rintro h parameter ⟨i, hi, hlength⟩ hrequired
    have := h i parameter hi hrequired
    omega

/-- Resolving succeeds exactly on the calls that fit, and then layers the values. -/
theorem resolve_eq_ok_iff (hnodup : signature.names.Nodup) :
    signature.resolve call = .ok bindings ↔
      signature.Accepts call ∧ bindings = signature.layers call := by
  rw [resolve_eq call hnodup]
  constructor
  · intro h
    split at h
    · cases h
    · rename_i hknown
      split at h
      · cases h
      · rename_i hroom
        split at h
        · cases h
        · rename_i hgiven
          exact ⟨⟨unknown_eq_nil_iff.mp (not_not.mp hknown), not_lt.mp hroom,
            unassigned_eq_nil_iff.mp (not_not.mp hgiven)⟩, (Except.ok.inj h).symm⟩
  · rintro ⟨haccepts, rfl⟩
    have hknown : signature.unknownNames call = [] := unknown_eq_nil_iff.mpr haccepts.known
    have hgiven := unassigned_eq_nil_iff.mpr haccepts.given
    rw [if_neg (not_not.mpr hknown), if_neg (not_lt.mpr haccepts.room),
      if_neg (not_not.mpr hgiven)]

/-! ## The values -/

theorem mem_names_iff {name : Text} :
    name ∈ bindings.names ↔ (bindings.get? name).isSome = true := by
  rw [Bindings.names, Bindings.get?, List.lookup_isSome_iff, List.mem_map]
  exact exists_congr fun pair => and_congr_right fun _ => by rw [beq_iff_eq, eq_comm]

theorem not_named_of_open {i : Nat} {parameter : Parameter}
    (hi : (signature.openParameters call)[i]? = some parameter) :
    parameter.name ∉ Bindings.names call.named := by
  simpa using (List.mem_filter.mp (List.mem_of_getElem? hi)).2

/-- An open parameter has the value at its place, else its default. -/
theorem value?_open {i : Nat} {parameter : Parameter} (hnodup : signature.names.Nodup)
    (hi : (signature.openParameters call)[i]? = some parameter) :
    signature.value? call parameter.name = (call.positional[i]?).or parameter.default? := by
  have hnamed : Bindings.get? call.named parameter.name = none := by
    rw [← Option.not_isSome_iff_eq_none, ← mem_names_iff]
    exact not_named_of_open hi
  simp only [Signature.value?, findIdx_openParameters hnodup hi, hnamed, hi, Option.none_or,
    Option.bind_some]

/-- The names that have a value are those of the parameters. -/
theorem mem_names_layers {name : Text} (hnodup : signature.names.Nodup)
    (hneed : ∀ parameter ∈ signature.parameters,
      parameter.isRequired = true ∨ parameter.default?.isSome = true)
    (h : signature.Accepts call) :
    name ∈ (signature.layers call).names ↔ name ∈ signature.names := by
  constructor
  · intro hname
    simp only [Bindings.names, Signature.layers, List.map_append, List.mem_append] at hname
    rcases hname with (hnamed | hgiven) | hdefault
    · exact h.known name hnamed
    · obtain ⟨⟨_, _⟩, hpair, rfl⟩ := List.mem_map.mp hgiven
      have hmem := (List.of_mem_zip hpair).1
      rw [unnamed_eq_map_openParameters call hnodup] at hmem
      exact (List.filter_sublist.map _).subset hmem
    · obtain ⟨⟨_, _⟩, hpair, rfl⟩ := List.mem_map.mp hdefault
      obtain ⟨parameter, hmem, hbinding⟩ := List.mem_filterMap.mp (List.mem_reverse.mp hpair)
      obtain ⟨_, -, hsame⟩ := Option.map_eq_some_iff.mp hbinding
      cases hsame
      exact List.mem_map_of_mem hmem
  · intro hname
    obtain ⟨parameter, hmem, rfl⟩ := List.mem_map.mp hname
    by_cases hnamed : parameter.name ∈ Bindings.names call.named
    · simp only [Bindings.names, Signature.layers, List.map_append, List.mem_append]
      exact .inl (.inl hnamed)
    · obtain ⟨i, hi⟩ := List.mem_iff_getElem?.mp
        (List.mem_filter.mpr ⟨hmem, by simpa using hnamed⟩ :
          parameter ∈ signature.openParameters call)
      rw [mem_names_iff, Signature.layers, get?_layers _ hnodup h.room, value?_open hnodup hi]
      by_cases hi' : i < call.positional.length
      · rw [List.getElem?_eq_getElem hi']
        rfl
      · rw [List.getElem?_eq_none (not_lt.mp hi'), Option.none_or]
        exact (hneed parameter hmem).resolve_left fun hrequired =>
          hi' (h.given i parameter hi hrequired)

/-! ## The order of named arguments -/

theorem sorted_congr {other : Bindings} (h : ∀ name, bindings.get? name = other.get? name) :
    bindings.sorted = other.sorted := by
  have hnames : Text.sortedSet bindings.names = Text.sortedSet other.names :=
    Text.sortedSet_congr fun name => by rw [mem_names_iff, mem_names_iff, h]
  unfold Bindings.sorted
  rw [hnames]
  simp only [h]

theorem get?_of_perm {other : Bindings} (hperm : other.Perm bindings) (hkeys : bindings.names.Nodup)
    (name : Text) : other.get? name = bindings.get? name := by
  have hother : other.names.Nodup := (hperm.map _).nodup_iff.mpr hkeys
  refine Option.ext fun value => ?_
  unfold Bindings.get?
  rw [lookup_eq_some_iff_mem hother, lookup_eq_some_iff_mem hkeys, hperm.mem_iff]

theorem sorted_resolve_of_perm {named : Bindings} (hnodup : signature.names.Nodup)
    (hkeys : (Bindings.names call.named).Nodup) (hperm : named.Perm call.named) :
    (signature.resolve { call with named }).map Bindings.sorted =
      (signature.resolve call).map Bindings.sorted := by
  have hmem : ∀ name, name ∈ Bindings.names named ↔ name ∈ Bindings.names call.named :=
    fun name => (hperm.map _).mem_iff
  have hopen : signature.openParameters { call with named } = signature.openParameters call :=
    List.filter_congr fun parameter _ => by simp only [hmem]
  have hunknown : signature.unknownNames { call with named } = signature.unknownNames call :=
    Text.sortedSet_congr fun name => by simp only [List.mem_filter, hmem]
  have hunassigned : signature.unassigned { call with named } = signature.unassigned call := by
    unfold Signature.unassigned
    rw [hopen]
  rw [resolve_eq _ hnodup, resolve_eq _ hnodup, hunknown, hopen, hunassigned]
  split
  · rfl
  · split
    · rfl
    · rename_i hroom
      split
      · rfl
      · refine congrArg Except.ok (sorted_congr fun name => ?_)
        have hvalue : signature.value? { call with named } name = signature.value? call name := by
          unfold Signature.value?
          rw [hopen, get?_of_perm hperm hkeys]
        rw [← get?_layers name hnodup (not_lt.mp hroom),
          ← get?_layers name hnodup (hopen ▸ not_lt.mp hroom)] at hvalue
        exact hvalue

/-! ## The rules -/

/-- How a signature resolves a call. -/
structure Signature.ResolvesBySignature (signature : Signature) (call : Call) : Prop where
  /-- The call is resolved exactly if every name in it is that of a parameter, there are not more
  values given by position than open parameters, and each required open parameter has a place below
  the number of these values. -/
  succeeds : (∃ bindings, signature.resolve call = .ok bindings) ↔
    (∀ key ∈ Bindings.names call.named, key ∈ signature.names) ∧
      call.positional.length ≤ (signature.openParameters call).length ∧
      ∀ i parameter, (signature.openParameters call)[i]? = some parameter →
        parameter.isRequired = true → i < call.positional.length
  /-- The parameters have values, and nothing else has. -/
  keys : ∀ bindings, signature.resolve call = .ok bindings →
    ∀ name, name ∈ bindings.names ↔ name ∈ signature.names
  named : ∀ bindings, signature.resolve call = .ok bindings →
    ∀ name value, (name, value) ∈ call.named → bindings.get? name = some value
  positional : ∀ bindings, signature.resolve call = .ok bindings →
    ∀ (i : Nat) (parameter : Parameter) (value : Text),
      (signature.openParameters call)[i]? = some parameter →
      call.positional[i]? = some value → bindings.get? parameter.name = some value
  defaulted : ∀ bindings, signature.resolve call = .ok bindings →
    ∀ (i : Nat) (parameter : Parameter), (signature.openParameters call)[i]? = some parameter →
      call.positional.length ≤ i →
        ∃ default, parameter.default? = some default ∧
          bindings.get? parameter.name = some default
  /-- Names that no parameter has are the first error, and all of them are listed in order. -/
  unknown : ¬ (∀ key ∈ Bindings.names call.named, key ∈ signature.names) →
    ∃ unknown, signature.resolve call = .error (.unknownArguments signature.name unknown) ∧
      unknown.Pairwise (· < ·) ∧
      ∀ name, name ∈ unknown ↔ name ∈ Bindings.names call.named ∧ name ∉ signature.names
  /-- Too many values given by position are the second one. -/
  tooMany : (∀ key ∈ Bindings.names call.named, key ∈ signature.names) →
    (signature.openParameters call).length < call.positional.length →
      signature.resolve call = .error (.tooManyArguments signature.name call.positional.length
        signature.parameters.length)
  /-- Required parameters without a value are the last one, listed in the order of the signature. -/
  missing : (∀ key ∈ Bindings.names call.named, key ∈ signature.names) →
    call.positional.length ≤ (signature.openParameters call).length →
    signature.unassigned call ≠ [] →
      signature.resolve call =
        .error (.missingArguments signature.name ((signature.unassigned call).map (·.name)))
  /-- The order in which arguments are named matters neither for the values nor for the error. -/
  order : ∀ named : Bindings, named.Perm call.named →
    (signature.resolve { call with named }).map Bindings.sorted =
      (signature.resolve call).map Bindings.sorted

/-- **A call is resolved by the rules of its signature**, if the parameters have distinct names and
each is required or has a default, and no argument is named twice. -/
theorem resolves_by_signature (hnodup : signature.names.Nodup)
    (hneed : ∀ parameter ∈ signature.parameters,
      parameter.isRequired = true ∨ parameter.default?.isSome = true)
    (hkeys : (Bindings.names call.named).Nodup) : signature.ResolvesBySignature call where
  succeeds := by
    constructor
    · rintro ⟨bindings, h⟩
      obtain ⟨haccepts, -⟩ := (resolve_eq_ok_iff hnodup).mp h
      exact ⟨haccepts.known, haccepts.room, haccepts.given⟩
    · rintro ⟨hknown, hroom, hgiven⟩
      exact ⟨_, (resolve_eq_ok_iff hnodup).mpr ⟨⟨hknown, hroom, hgiven⟩, rfl⟩⟩
  keys := by
    intro bindings h name
    obtain ⟨haccepts, rfl⟩ := (resolve_eq_ok_iff hnodup).mp h
    exact mem_names_layers hnodup hneed haccepts
  named := by
    intro bindings h name value hmem
    obtain ⟨haccepts, rfl⟩ := (resolve_eq_ok_iff hnodup).mp h
    have hvalue : Bindings.get? call.named name = some value :=
      (lookup_eq_some_iff_mem hkeys).mpr hmem
    rw [Signature.layers, get?_layers _ hnodup haccepts.room, Signature.value?, hvalue]
    rfl
  positional := by
    intro bindings h i parameter value hi hvalue
    obtain ⟨haccepts, rfl⟩ := (resolve_eq_ok_iff hnodup).mp h
    rw [Signature.layers, get?_layers _ hnodup haccepts.room, value?_open hnodup hi, hvalue]
    rfl
  defaulted := by
    intro bindings h i parameter hi hlength
    obtain ⟨haccepts, rfl⟩ := (resolve_eq_ok_iff hnodup).mp h
    have hmem : parameter ∈ signature.parameters :=
      List.filter_sublist.subset (List.mem_of_getElem? hi)
    have hoptional : ¬ parameter.isRequired = true := fun hrequired =>
      absurd (haccepts.given i parameter hi hrequired) (not_lt.mpr hlength)
    obtain ⟨default, hdefault⟩ :=
      Option.isSome_iff_exists.mp ((hneed parameter hmem).resolve_left hoptional)
    refine ⟨default, hdefault, ?_⟩
    rw [Signature.layers, get?_layers _ hnodup haccepts.room, value?_open hnodup hi,
      List.getElem?_eq_none hlength, Option.none_or, hdefault]
  unknown := by
    intro hunknown
    have hne : signature.unknownNames call ≠ [] := mt unknown_eq_nil_iff.mp hunknown
    refine ⟨signature.unknownNames call, ?_, Text.pairwise_sortedSet _, fun name => ?_⟩
    · rw [resolve_eq call hnodup, if_pos hne]
    · rw [Signature.unknownNames, Text.mem_sortedSet, List.mem_filter, decide_eq_true_iff]
  tooMany := by
    intro hknown hmany
    have hnil : signature.unknownNames call = [] := unknown_eq_nil_iff.mpr hknown
    rw [resolve_eq call hnodup, if_neg (not_not.mpr hnil), if_pos hmany]
  missing := by
    intro hknown hroom hmissing
    have hnil : signature.unknownNames call = [] := unknown_eq_nil_iff.mpr hknown
    rw [resolve_eq call hnodup, if_neg (not_not.mpr hnil), if_neg (not_lt.mpr hroom),
      if_pos hmissing]
  order := fun _ hperm => sorted_resolve_of_perm hnodup hkeys hperm

/-- A signature with two required and two optional parameters. -/
def card : Signature where
  name := "card"
  parameters := [⟨"title", .required⟩, ⟨"body", .required⟩, ⟨"width", .optional (some "10")⟩,
    ⟨"align", .optional (some "left")⟩]

/-- A call that names the second parameter, so that its second value goes to the third one. -/
def mixedCall : Call where
  name := "card"
  positional := ["t", "20"]
  named := [("body", "b")]

theorem resolves_by_signature_card :
    card.ResolvesBySignature mixedCall ∧
      (card.resolve mixedCall).map Bindings.sorted =
        .ok [("align", "left"), ("body", "b"), ("title", "t"), ("width", "20")] :=
  ⟨resolves_by_signature (by decide) (by decide) (by decide), by decide⟩

end Folio.Directive
