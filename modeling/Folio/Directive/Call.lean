import Folio.Directive.Items

/-!
# Calls

A call `[[name, value, key=value]]` names a directive and gives arguments by position or by name.
-/

namespace Folio.Directive

/-- A call of a directive: the values given by position and those given by name, each in the order
in which they are written. -/
structure Call where
  name : Text
  positional : List Text := []
  named : List (Text × Text) := []
  deriving DecidableEq, Repr

/-- Add one argument to a call. The inner text of the call is shown if the argument is refused. -/
def Call.addArgument (inner : Text) (call : Call) (item : Text) : Except DirectiveError Call :=
  match item.cutAt "=" with
  | some (left, right) =>
    let key := left.strip
    let value := right.strip
    if key = [] then .error (.emptyArgumentName inner)
    else if value = [] then .error (.emptyArgumentValue key inner)
    else if key ∈ call.named.map (·.1) then .error (.duplicateArgument key inner)
    else .ok { call with named := call.named ++ [(key, value)] }
  | none => .ok { call with positional := call.positional ++ [item] }

/-- Read a call from the text between its brackets. -/
def Call.parse (inner : Text) : Except DirectiveError Call := do
  match ← items inner with
  | [] => .error (.emptyCallName inner)
  | first :: rest =>
    let name := first.strip
    if name = [] then .error (.emptyCallName inner)
    else rest.foldlM (Call.addArgument inner) { name }

end Folio.Directive
