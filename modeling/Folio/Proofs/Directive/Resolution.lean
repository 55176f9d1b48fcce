import Folio.Directive.Resolution
import Folio.Proofs.Text.Sorted
import Mathlib.Data.List.Nodup

/-!
# Which calls a signature accepts

A signature accepts a call if it knows every name in the call, has room for the values given by
position and leaves no required parameter without a value (`Signature.Accepts`). Each parameter then
has one value (`Signature.value?`): the one given by name, else the one given at its place among the
parameters that are not named, else its default.

Resolving arguments succeeds exactly on the accepted calls and finds these values:
`exists_resolve_eq_ok` and `exists_resolve_eq_error`, for parameters with distinct names.
-/

namespace Folio.Directive

/-- The parameters that a call does not give by name, in order. -/
def Signature.openParameters (signature : Signature) (call : Call) : List Parameter :=
  signature.parameters.filter fun parameter => parameter.name ∉ Bindings.names call.named

/-- The calls that fit a signature. -/
structure Signature.Accepts (signature : Signature) (call : Call) : Prop where
  known : ∀ key ∈ Bindings.names call.named, key ∈ signature.names
  room : call.positional.length ≤ (signature.openParameters call).length
  given : ∀ i parameter, (signature.openParameters call)[i]? = some parameter →
    parameter.isRequired = true → i < call.positional.length

/-- The value of a name in a call: the one given by name, else the one given at the place that the
name has among the open parameters, else the default of the parameter there. -/
def Signature.value? (signature : Signature) (call : Call) (name : Text) : Option Text :=
  let takers := signature.openParameters call
  let place := takers.findIdx (·.name == name)
  (Bindings.get? call.named name).or
    ((call.positional[place]?).or ((takers[place]?).bind (·.default?)))

/-! ## Look-ups -/

/-- If no key occurs twice, a look-up is membership. -/
theorem lookup_eq_some_iff_mem {bindings : List (Text × Text)} {name value : Text}
    (hnodup : (bindings.map (·.1)).Nodup) :
    bindings.lookup name = some value ↔ (name, value) ∈ bindings := by
  induction bindings with
  | nil => simp
  | cons binding rest ih =>
    obtain ⟨key, old⟩ := binding
    rw [List.map_cons, List.nodup_cons] at hnodup
    by_cases hkey : name = key
    · subst hkey
      have hout : (name, value) ∉ rest := fun hmem =>
        hnodup.1 (List.mem_map.mpr ⟨(name, value), hmem, rfl⟩)
      simp [hout, eq_comm]
    · have hbeq : (name == key) = false := by simpa using hkey
      simp [List.lookup_cons, hbeq, ih hnodup.2, hkey]

theorem lookup_reverse {bindings : List (Text × Text)} (name : Text)
    (hnodup : (bindings.map (·.1)).Nodup) :
    bindings.reverse.lookup name = bindings.lookup name := by
  have hrev : (bindings.reverse.map (·.1)).Nodup := by
    rw [List.map_reverse]
    exact List.nodup_reverse.mpr hnodup
  refine Option.ext fun value => ?_
  rw [lookup_eq_some_iff_mem hrev, lookup_eq_some_iff_mem hnodup, List.mem_reverse]

/-- Values given by position are looked up by the place of their parameter. -/
theorem lookup_zip_names {parameters : List Parameter} {values : List Text} (name : Text)
    (hlen : values.length ≤ parameters.length) :
    ((parameters.map (·.name)).zip values).lookup name =
      values[parameters.findIdx (·.name == name)]? := by
  induction parameters generalizing values with
  | nil =>
    obtain rfl : values = [] := by simpa using hlen
    rfl
  | cons parameter rest ih =>
    cases values with
    | nil => simp
    | cons value values =>
      have hlen' : values.length ≤ rest.length := by simpa using hlen
      have hrest := ih hlen'
      rw [List.map_cons, List.zip_cons_cons, List.findIdx_cons, List.lookup_cons]
      by_cases hname : parameter.name = name
      · simp [hname]
      · have hbeq : (name == parameter.name) = false := by simpa using Ne.symm hname
        have hbeq' : (parameter.name == name) = false := by simpa using hname
        simp [hbeq, hbeq', hrest]

theorem lookup_defaults_unreversed (parameters : List Parameter) (name : Text)
    (hnodup : (parameters.map (·.name)).Nodup) :
    (parameters.filterMap fun parameter =>
      parameter.default?.map fun default => (parameter.name, default)).lookup name =
      (parameters.find? (·.name == name)).bind (·.default?) := by
  induction parameters with
  | nil => rfl
  | cons parameter rest ih =>
    rw [List.map_cons, List.nodup_cons] at hnodup
    have hrest := ih hnodup.2
    by_cases hname : parameter.name = name
    · subst hname
      cases hdefault : parameter.default? with
      | some default => simp [hdefault]
      | none =>
        have hfind : rest.find? (·.name == parameter.name) = none := by
          simp only [List.find?_eq_none, beq_iff_eq]
          intro other hother hsame
          exact hnodup.1 (List.mem_map.mpr ⟨other, hother, hsame⟩)
        rw [hfind] at hrest
        simpa [hdefault] using hrest
    · cases hdefault : parameter.default? with
      | some default =>
        have hbeq : (name == parameter.name) = false := by simpa using Ne.symm hname
        simpa [hdefault, hname, List.lookup_cons, hbeq] using hrest
      | none => simpa [hdefault, hname] using hrest

theorem nodup_defaults_keys (parameters : List Parameter)
    (hnodup : (parameters.map (·.name)).Nodup) :
    ((parameters.filterMap fun parameter =>
      parameter.default?.map fun default => (parameter.name, default)).map (·.1)).Nodup := by
  refine hnodup.sublist ?_
  induction parameters with
  | nil => exact List.Sublist.refl _
  | cons parameter rest ih =>
    have hrest := ih (List.nodup_cons.mp hnodup).2
    cases hdefault : parameter.default? with
    | some default => simpa [hdefault] using hrest
    | none => simpa [hdefault] using hrest.cons _

theorem lookup_defaults {signature : Signature} (name : Text)
    (hnodup : signature.names.Nodup) :
    signature.defaults.lookup name =
      (signature.parameters.find? (·.name == name)).bind (·.default?) := by
  rw [Signature.defaults, lookup_reverse name (nodup_defaults_keys _ hnodup),
    lookup_defaults_unreversed _ name hnodup]

/-! ## The values of an accepted call -/

theorem eraseDups_of_nodup {names : List Text} (hnodup : names.Nodup) :
    names.eraseDups = names := by
  induction names with
  | nil => rfl
  | cons name rest ih =>
    obtain ⟨hname, hrest⟩ := List.nodup_cons.mp hnodup
    have hkeep : rest.filter (fun other => !other == name) = rest := by
      rw [List.filter_eq_self]
      intro other hother
      simpa using fun hsame : other = name => hname (hsame ▸ hother)
    rw [List.eraseDups_cons, hkeep, ih hrest]

/-- With distinct names, the names that can take a value by position are those of the open
parameters. -/
theorem unnamed_eq_map_openParameters {signature : Signature} (call : Call)
    (hnodup : signature.names.Nodup) :
    signature.unnamed call.named = (signature.openParameters call).map (·.name) := by
  rw [Signature.unnamed, eraseDups_of_nodup (hnodup.filter _), Signature.names, List.filter_map]
  rfl

/-- The open parameter with a name that is not given is the parameter with that name. -/
theorem getElem?_openParameters {signature : Signature} {call : Call} {name : Text}
    (hname : name ∉ Bindings.names call.named) :
    (signature.openParameters call)[(signature.openParameters call).findIdx (·.name == name)]? =
      signature.parameters.find? (·.name == name) := by
  rw [← List.find?_eq_getElem?_findIdx, Signature.openParameters, List.find?_filter]
  congr 1
  funext parameter
  by_cases hsame : parameter.name = name
  · simp [hsame, hname]
  · simp [hsame]

/-- Layering the given values over the defaults gives every name its value. -/
theorem get?_layers {signature : Signature} {call : Call} (name : Text)
    (hnodup : signature.names.Nodup)
    (hroom : call.positional.length ≤ (signature.openParameters call).length) :
    Bindings.get? (call.named ++ (signature.unnamed call.named).zip call.positional ++
      signature.defaults) name = signature.value? call name := by
  rw [Bindings.get?, List.lookup_append, List.lookup_append,
    unnamed_eq_map_openParameters call hnodup, lookup_zip_names name hroom,
    lookup_defaults name hnodup, Signature.value?, Option.or_assoc, Bindings.get?]
  cases hnamed : call.named.lookup name with
  | some value => rfl
  | none =>
    have hout : name ∉ Bindings.names call.named := by
      intro hmem
      obtain ⟨⟨key, value⟩, hpair, rfl⟩ := List.mem_map.mp hmem
      exact absurd (List.lookup_eq_none_iff.mp hnamed _ hpair) (by simp)
    rw [getElem?_openParameters hout]

/-- The place of an open parameter is found by its name. -/
theorem findIdx_openParameters {signature : Signature} {call : Call} {i : Nat}
    {parameter : Parameter} (hnodup : signature.names.Nodup)
    (hi : (signature.openParameters call)[i]? = some parameter) :
    (signature.openParameters call).findIdx (·.name == parameter.name) = i := by
  obtain ⟨hlt, hget⟩ := List.getElem?_eq_some_iff.mp hi
  have hopen : ((signature.openParameters call).map (·.name)).Nodup :=
    hnodup.sublist (List.filter_sublist.map _)
  rw [List.findIdx_eq hlt]
  refine ⟨by simp [hget], fun j hj => ?_⟩
  simp only [beq_eq_false_iff_ne, ne_eq]
  intro hsame
  have hne := List.nodup_iff_getElem?_ne_getElem?.mp hopen j i hj (by simpa using hlt)
  exact hne (by simp [hi, List.getElem?_eq_getElem (Nat.lt_trans hj hlt), hsame])

/-- A required parameter is without a value exactly if it is open and too few values are given by
position. -/
theorem value?_required {signature : Signature} {call : Call} {parameter : Parameter}
    (hnodup : signature.names.Nodup) (hmem : parameter ∈ signature.parameters)
    (hrequired : parameter.isRequired = true) :
    signature.value? call parameter.name = none ↔
      ∃ i, (signature.openParameters call)[i]? = some parameter ∧ call.positional.length ≤ i := by
  have hdefault : parameter.default? = none := by
    have hneed : parameter.need = .required := by simpa [Parameter.isRequired] using hrequired
    simp [Parameter.default?, hneed]
  constructor
  · intro hnone
    simp only [Signature.value?, Option.or_eq_none_iff, List.getElem?_eq_none_iff] at hnone
    obtain ⟨hnamed, hplace, -⟩ := hnone
    have hout : parameter.name ∉ Bindings.names call.named := by
      intro hin
      obtain ⟨⟨key, value⟩, hpair, hkey⟩ := List.mem_map.mp hin
      exact absurd (List.lookup_eq_none_iff.mp hnamed _ hpair) (by simpa using hkey.symm)
    have hopen : parameter ∈ signature.openParameters call :=
      List.mem_filter.mpr ⟨hmem, by simpa using hout⟩
    obtain ⟨i, hi⟩ := List.mem_iff_getElem?.mp hopen
    rw [findIdx_openParameters hnodup hi] at hplace
    exact ⟨i, hi, hplace⟩
  · rintro ⟨i, hi, hplace⟩
    have hopen : parameter ∈ signature.openParameters call := List.mem_of_getElem? hi
    have hout : parameter.name ∉ Bindings.names call.named := by
      simpa using (List.mem_filter.mp hopen).2
    have hnamed : Bindings.get? call.named parameter.name = none := by
      rw [Bindings.get?, List.lookup_eq_none_iff]
      intro pair hpair
      simpa using fun hsame : parameter.name = pair.1 =>
        hout (hsame ▸ List.mem_map.mpr ⟨pair, hpair, rfl⟩)
    simp only [Signature.value?, findIdx_openParameters hnodup hi, hnamed, hi,
      List.getElem?_eq_none hplace, Option.none_or, Option.bind_some, hdefault]

/-! ## Resolving -/

/-- The names given that no parameter has. -/
theorem unknown_eq_nil_iff {signature : Signature} {call : Call} :
    Text.sortedSet ((Bindings.names call.named).filter (· ∉ signature.names)) = [] ↔
      ∀ key ∈ Bindings.names call.named, key ∈ signature.names := by
  rw [Text.sortedSet_eq_nil_iff, List.filter_eq_nil_iff]
  simp

/-- The required parameters without a value, once there is room for the values given. -/
theorem missing_eq_nil_iff {signature : Signature} {call : Call} (hnodup : signature.names.Nodup)
    (hroom : call.positional.length ≤ (signature.openParameters call).length) :
    (((signature.parameters.filter (·.isRequired)).map (·.name)).filter fun name =>
      (Bindings.get? (call.named ++ (signature.unnamed call.named).zip call.positional ++
        signature.defaults) name).isNone) = [] ↔
      ∀ i parameter, (signature.openParameters call)[i]? = some parameter →
        parameter.isRequired = true → i < call.positional.length := by
  simp only [get?_layers _ hnodup hroom, List.filter_eq_nil_iff, List.mem_map, List.mem_filter,
    Option.isNone_iff_eq_none, forall_exists_index, and_imp]
  constructor
  · intro h i parameter hi hrequired
    have hmem : parameter ∈ signature.parameters :=
      (List.mem_filter.mp (List.mem_of_getElem? hi)).1
    have hvalue := h parameter.name parameter hmem hrequired rfl
    rw [value?_required hnodup hmem hrequired] at hvalue
    by_contra hle
    exact hvalue ⟨i, hi, by omega⟩
  · rintro h _ parameter hmem hrequired rfl hnone
    obtain ⟨i, hi, hle⟩ := (value?_required hnodup hmem hrequired).mp hnone
    have := h i parameter hi hrequired
    omega

/-- An accepted call is resolved, and every name gets its value. -/
theorem exists_resolve_eq_ok {signature : Signature} {call : Call}
    (hnodup : signature.names.Nodup) (h : signature.Accepts call) :
    ∃ bindings, signature.resolve call = .ok bindings ∧
      ∀ name, Bindings.get? bindings name = signature.value? call name := by
  have hunknown := unknown_eq_nil_iff.mpr h.known
  have hmissing := (missing_eq_nil_iff hnodup h.room).mpr h.given
  have hlen : ¬ (signature.unnamed call.named).length < call.positional.length := by
    rw [unnamed_eq_map_openParameters call hnodup, List.length_map]
    exact Nat.not_lt.mpr h.room
  refine ⟨_, ?_, fun name => get?_layers name hnodup h.room⟩
  simp only [Signature.resolve, hunknown, hmissing, hlen, ne_eq, not_true_eq_false, if_false]

/-- A call that is not accepted is refused. -/
theorem exists_resolve_eq_error {signature : Signature} {call : Call}
    (hnodup : signature.names.Nodup) (h : ¬ signature.Accepts call) :
    ∃ cause, signature.resolve call = .error cause := by
  cases hresolve : signature.resolve call with
  | error cause => exact ⟨cause, rfl⟩
  | ok bindings =>
    exfalso
    simp only [Signature.resolve] at hresolve
    split at hresolve
    · cases hresolve
    · rename_i hunknown
      split at hresolve
      · cases hresolve
      · rename_i hlen
        split at hresolve
        · cases hresolve
        · rename_i hmissing
          rw [unnamed_eq_map_openParameters call hnodup, List.length_map, Nat.not_lt] at hlen
          exact h ⟨unknown_eq_nil_iff.mp (not_not.mp hunknown), hlen,
            (missing_eq_nil_iff hnodup hlen).mp (not_not.mp hmissing)⟩

end Folio.Directive
