import Folio.Proofs.Directive.DefinitionText
import Folio.Proofs.Directive.Messages

/-!
# Where definitions come from

Every directive of a definitions file was declared on one line of it: its signature was read from a
text without line breaks (`declared_of_parse`). So its name and the names of its parameters are
single lines (`namesSingleLine_of_parse`), whatever its template holds. No name is defined twice,
and the tokens of the file are those of its directives without parameters
(`Definitions.AllDeclared`). So no token comes twice, and no file is refused for one
(`DefinitionError.Arises`).
-/

namespace Folio.Directive

open Text DirectiveError

/-- The signature was read from a single line. -/
def Declared (signature : Signature) : Prop :=
  ∃ written, SingleLine written ∧ Signature.parse written = .ok signature

/-! ## Reading signatures -/

theorem outcome_declare {signature item : Text} {declared : List Parameter}
    (hsignature : SingleLine signature) (hitem : SingleLine item)
    (hdeclared : ∀ parameter ∈ declared, SingleLine parameter.name) :
    Outcome (declare signature declared item)
      (∀ parameter ∈ ·, SingleLine parameter.name) Clear := by
  have hadd {name : Text} {need : Need} (hname : SingleLine name) :
      ∀ parameter ∈ declared ++ [⟨name, need⟩], SingleLine parameter.name := by
    intro parameter hparameter
    rcases List.mem_append.mp hparameter with hparameter | hparameter
    · exact hdeclared parameter hparameter
    · obtain rfl := List.mem_singleton.mp hparameter
      exact hname
  unfold declare
  split
  · rename_i left right hcut
    have hname := (singleLine_of_cutAt hitem hcut).1.strip
    dsimp only
    split_ifs
    · exact .error (by simpa [Clear, shown] using hsignature)
    · exact .error (by simpa [Clear, shown] using ⟨hname, hsignature⟩)
    · exact .error (by simpa [Clear, shown] using ⟨hname, hsignature⟩)
    · exact .ok (hadd hname)
  · have hname := hitem.strip
    dsimp only
    split_ifs
    · exact .error (by simpa [Clear, shown] using hsignature)
    · exact .error (by simpa [Clear, shown] using ⟨hname, hsignature⟩)
    · exact .error (by simpa [Clear, shown] using ⟨hname, hsignature⟩)
    · exact .ok (hadd hname)

theorem outcome_parseSignature {written : Text} (h : SingleLine written) :
    Outcome (Signature.parse written) Signature.NamesSingleLine Clear := by
  unfold Signature.parse
  refine (outcome_unbracket h).bind fun inner hinner => ?_
  refine (outcome_items hinner).bind fun parts hparts => ?_
  cases parts with
  | nil => exact .error (by simpa [Clear, shown] using h)
  | cons first rest =>
    dsimp only
    split
    · exact .error (by simpa [Clear, shown] using h)
    · have hfold : Outcome (rest.foldlM (declare written) [])
          (∀ parameter ∈ ·, SingleLine parameter.name) Clear := by
        refine .foldlM (by simp) ?_
        intro item hitem declared hdeclared
        exact outcome_declare h (hparts item (List.mem_cons_of_mem _ hitem)) hdeclared
      refine hfold.bind fun parameters hparameters => .ok ⟨?_, ?_⟩
      · exact (hparts first List.mem_cons_self).strip
      · intro name hname
        obtain ⟨parameter, hparameter, rfl⟩ := List.mem_map.mp hname
        exact hparameters parameter hparameter

theorem Declared.namesSingleLine {signature : Signature} (h : Declared signature) :
    signature.NamesSingleLine := by
  obtain ⟨written, hwritten, hparse⟩ := h
  exact (outcome_parseSignature hwritten).1 signature hparse

/-! ## Reading definitions -/

/-- The definitions are those of directives that were declared on lines, each under another name. -/
structure Definitions.AllDeclared (definitions : Definitions) : Prop where
  declared : ∀ definition ∈ definitions.directives, Declared definition.toSignature
  distinct : (definitions.directives.map (·.name)).Nodup
  eq_ofDirectives : definitions = .ofDirectives definitions.directives

/-- A file can be refused for this: for a signature only if the signature is refused by itself, and
never for a token. -/
def DefinitionError.Arises : DefinitionError → Prop
  | .badSignature cause => ∃ written, Signature.parse written = .error cause
  | .duplicateToken _ => False
  | _ => True

theorem outcome_add {definitions : Definitions} {definition : Definition}
    (hdefinitions : definitions.AllDeclared) (hdefinition : Declared definition.toSignature) :
    Outcome (definitions.add definition) Definitions.AllDeclared DefinitionError.Arises := by
  obtain ⟨hdeclared, hdistinct, heq⟩ := hdefinitions
  generalize definitions.directives = directives at hdeclared hdistinct heq
  subst heq
  by_cases hknown : definition.name ∈ directives.map (·.name)
  · obtain ⟨other, hother, hname⟩ := List.mem_map.mp hknown
    have hany : ((Definitions.ofDirectives directives).directives.any
        fun known => known.name == definition.name) = true :=
      List.any_eq_true.mpr ⟨other, hother, beq_iff_eq.mpr hname⟩
    unfold Definitions.add
    dsimp only
    rw [if_pos hany]
    exact .error trivial
  · rw [add_ofDirectives hknown]
    refine .ok ⟨fun other hother => ?_, ?_, rfl⟩
    · rcases List.mem_append.mp hother with hother | hother
      · exact hdeclared other hother
      · obtain rfl := List.mem_singleton.mp hother
        exact hdefinition
    · have hnames := hdistinct.concat hknown
      rw [List.concat_eq_append] at hnames
      rw [Definitions.ofDirectives, List.map_append]
      exact hnames

theorem singleLine_of_splitAssignment {line written assigned : Text} (hline : SingleLine line)
    (h : splitAssignment line = .ok (written, assigned)) : SingleLine written := by
  unfold splitAssignment at h
  split at h
  · cases h
  · rename_i before after hcut
    have hbefore := (singleLine_of_cutAt hline hcut).1
    have hclose : SingleLine ("]]" : Text) := singleLine_literal (by decide)
    dsimp only at h
    split at h
    · split at h
      · cases h
      · cases h
        exact (hbefore.append hclose).strip
    · cases h

theorem arises_of_splitAssignment {line : Text} {cause : DefinitionError}
    (h : splitAssignment line = .error cause) : cause.Arises := by
  unfold splitAssignment at h
  split at h
  · cases h
    trivial
  · dsimp only at h
    split at h
    · split at h
      · cases h
        trivial
      · cases h
    · cases h
      trivial

section Reading

variable {ε : Type} {load : Text → Except (IncludeError ε) Text}

/-- Where a failure comes from: a refusal has a cause that can arise, and a file that cannot be read
is one that is included. -/
def Explained (load : Text → Except (IncludeError ε) Text) : DefinitionsFailure ε → Prop
  | .refused _ cause => cause.Arises
  | .unreadable error => ∃ path, load path = .error (.unreadable error)

theorem outcome_atPlace {α : Type} {Q : α → Prop} {place : Text} {x : Except DefinitionError α}
    (h : Outcome x Q DefinitionError.Arises) :
    Outcome (atPlace place x : Except (DefinitionsFailure ε) α) Q (Explained load) :=
  h.mapError fun _ hcause => hcause

theorem outcome_loadTemplate (place written path : Text) :
    Outcome (loadTemplate load place written path) (fun _ => True) (Explained load) := by
  unfold loadTemplate
  split
  · exact .error trivial
  · rcases hload : load path with (missing | cause) | template
    · exact .error trivial
    · exact .error ⟨path, hload⟩
    · exact .ok trivial

/-- A block that is open holds a signature that was declared on a line. -/
def BlockDeclared (block : Option OpenBlock) : Prop := ∀ b ∈ block, Declared b.signature

theorem blockDeclared_none : BlockDeclared none := by
  intro b hb
  cases hb

theorem outcome_readLine {place line : Text} {definitions : Definitions} (hline : SingleLine line)
    (hdefinitions : definitions.AllDeclared) :
    Outcome (readLine load place line definitions)
      (fun result => result.1.AllDeclared ∧ BlockDeclared result.2) (Explained load) := by
  unfold readLine
  dsimp only
  split
  · exact .ok ⟨hdefinitions, blockDeclared_none⟩
  · have hsplit : Outcome (atPlace place (splitAssignment line.strip) :
        Except (DefinitionsFailure ε) _) (fun pair => SingleLine pair.1) (Explained load) := by
      refine outcome_atPlace ⟨?_, fun _ => arises_of_splitAssignment⟩
      rintro ⟨written, assigned⟩ hpair
      exact singleLine_of_splitAssignment hline.strip hpair
    refine hsplit.bind ?_
    rintro ⟨written, assigned⟩ hwritten
    have hparse : Outcome (atPlace place ((Signature.parse written).mapError .badSignature) :
        Except (DefinitionsFailure ε) _) Declared (Explained load) := by
      refine outcome_atPlace (Outcome.mapError ⟨?_, ?_⟩ fun _ hcause => hcause)
      · intro signature hsignature
        exact ⟨written, hwritten, hsignature⟩
      · intro cause hcause
        exact ⟨written, hcause⟩
    refine hparse.bind fun signature hsignature => ?_
    have hadd (template : Text) : Outcome (do
        return (← atPlace place (definitions.add { signature with template }), none) :
          Except (DefinitionsFailure ε) (Definitions × Option OpenBlock))
        (fun result => result.1.AllDeclared ∧ BlockDeclared result.2) (Explained load) :=
      (outcome_atPlace (outcome_add hdefinitions hsignature)).bind
        fun added hadded => .ok ⟨hadded, blockDeclared_none⟩
    cases TemplateSource.parse assigned with
    | block =>
      refine .ok ⟨hdefinitions, ?_⟩
      rintro b ⟨⟩
      exact hsignature
    | «include» path =>
      exact (outcome_loadTemplate place written path).bind fun template _ => hadd template
    | inline template => exact hadd template

/-- The invariant of reading: what has been defined, and the block that is open, was declared. -/
theorem outcome_readLines {source : Text} {ls : List Text} (number : Nat)
    {block : Option OpenBlock} {definitions : Definitions}
    (hls : ∀ line ∈ ls, SingleLine line) (hblock : BlockDeclared block)
    (hdefinitions : definitions.AllDeclared) :
    Outcome (readLines load source number block definitions ls) Definitions.AllDeclared
      (Explained load) := by
  induction ls generalizing number block definitions with
  | nil =>
    cases block with
    | none => exact .ok hdefinitions
    | some block => exact .error trivial
  | cons line rest ih =>
    obtain ⟨hline, hrest⟩ := List.forall_mem_cons.mp hls
    cases block with
    | none =>
      rw [readLines]
      refine (outcome_readLine hline hdefinitions).bind ?_
      rintro ⟨definitions', block'⟩ ⟨hdefinitions', hblock'⟩
      exact ih _ hrest hblock' hdefinitions'
    | some block =>
      have hsignature : Declared block.signature := hblock block rfl
      rw [readLines]
      split
      · refine (outcome_atPlace (outcome_add hdefinitions hsignature)).bind ?_
        intro definitions' hdefinitions'
        exact ih _ hrest blockDeclared_none hdefinitions'
      · refine ih _ hrest ?_ hdefinitions
        rintro b ⟨⟩
        exact hsignature

theorem outcome_parse (source text : Text) :
    Outcome (Definitions.parse load source text) Definitions.AllDeclared (Explained load) := by
  have hempty : Definitions.AllDeclared {} := by
    refine ⟨?_, List.nodup_nil, rfl⟩
    intro definition hmem
    cases hmem
  exact outcome_readLines 1 singleLine_of_mem_lines blockDeclared_none hempty

theorem declared_of_parse {source text : Text} {definitions : Definitions}
    (h : Definitions.parse load source text = .ok definitions) : definitions.AllDeclared :=
  (outcome_parse source text).1 definitions h

theorem namesSingleLine_of_parse {source text : Text} {definitions : Definitions}
    (h : Definitions.parse load source text = .ok definitions) :
    ∀ definition ∈ definitions.directives, definition.NamesSingleLine :=
  fun definition hmem => ((declared_of_parse h).declared definition hmem).namesSingleLine

end Reading

end Folio.Directive
