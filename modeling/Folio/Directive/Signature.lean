import Folio.Directive.Items

/-!
# Signatures

A signature `[[name, first, second=default]]` declares a directive: its name, then its required
parameters, then its optional ones.
-/

namespace Folio.Directive

/-- Whether a parameter must be given, and what it is if it is not. -/
inductive Need where
  /-- The parameter must be given. -/
  | required
  /-- The parameter may be left out; it then has its default, if there is one. -/
  | optional (default : Option Text)
  deriving DecidableEq, Repr

structure Parameter where
  name : Text
  need : Need
  deriving DecidableEq, Repr

def Parameter.isRequired (parameter : Parameter) : Bool :=
  parameter.need == .required

/-- What the parameter is if it is not given. -/
def Parameter.default? (parameter : Parameter) : Option Text :=
  match parameter.need with
  | .required => none
  | .optional default => default

/-- The name of a directive and its parameters in order. -/
structure Signature where
  name : Text
  parameters : List Parameter
  deriving DecidableEq, Repr

/-- A directive: a signature and the template that replaces its calls. -/
structure Definition extends Signature where
  template : Text
  deriving DecidableEq, Repr

/-- Declare one more parameter, written as `name` or as `name=default`. -/
def declare (signature : Text) (declared : List Parameter) (item : Text) :
    Except DirectiveError (List Parameter) :=
  match item.cutAt "=" with
  | some (left, right) =>
    let name := left.strip
    let default := right.strip
    if name = [] then .error (.emptyParameter signature)
    else if name ∈ declared.map (·.name) then .error (.duplicateParameter name signature)
    else if default = [] then .error (.emptyDefault name signature)
    else .ok (declared ++ [⟨name, .optional (some default)⟩])
  | none =>
    let name := item.strip
    if name = [] then .error (.emptyParameter signature)
    else if name ∈ declared.map (·.name) then .error (.duplicateParameter name signature)
    else if declared.any (!·.isRequired) then .error (.requiredAfterOptional name signature)
    else .ok (declared ++ [⟨name, .required⟩])

def Signature.parse (text : Text) : Except DirectiveError Signature := do
  let inner ← unbracket text
  match ← items inner with
  | [] => .error (.emptySignatureName text)
  | first :: rest =>
    let name := first.strip
    if name = [] then .error (.emptySignatureName text)
    else return ⟨name, ← rest.foldlM (declare text) []⟩

end Folio.Directive
