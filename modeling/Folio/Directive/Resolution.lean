import Folio.Bindings
import Folio.Directive.Call
import Folio.Directive.Signature

/-!
# Resolving arguments

A call gives values to the parameters of a directive. Values given by name go to their parameter.
Values given by position go, in order, to the parameters that are not named. What is left has its
default.
-/

namespace Folio.Directive

/-- The names of the parameters, in order. -/
def Signature.names (signature : Signature) : List Text :=
  signature.parameters.map (·.name)

/-- The parameters that values given by position can go to: those not named, each once. -/
def Signature.unnamed (signature : Signature) (named : Bindings) : List Text :=
  (signature.names.filter (· ∉ named.names)).eraseDups

/-- The defaults; of two equal names the later default comes first. -/
def Signature.defaults (signature : Signature) : Bindings :=
  (signature.parameters.filterMap fun parameter =>
    parameter.default?.map fun default => (parameter.name, default)).reverse

/-- The values of the parameters in a call: first those given by name, then those given by
position, then the defaults. -/
def Signature.resolve (signature : Signature) (call : Call) : Except DirectiveError Bindings :=
  let unknown := Text.sortedSet (Bindings.names call.named |>.filter (· ∉ signature.names))
  let unnamed := signature.unnamed call.named
  let bindings := call.named ++ unnamed.zip call.positional ++ signature.defaults
  let missing := (signature.parameters.filter (·.isRequired)).map (·.name)
    |>.filter fun name => (Bindings.get? bindings name).isNone
  if unknown ≠ [] then .error (.unknownArguments signature.name unknown)
  else if unnamed.length < call.positional.length then
    .error (.tooManyArguments signature.name call.positional.length signature.parameters.length)
  else if missing ≠ [] then .error (.missingArguments signature.name missing)
  else .ok bindings

end Folio.Directive
