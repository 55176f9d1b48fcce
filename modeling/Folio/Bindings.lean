import Folio.Text.Basic

/-!
# Bindings

Lists of names with their values. A look-up takes the first value of a name, so a list made of
layers lets the earlier layer win; `set` keeps each name once and lets the last value win.
-/

namespace Folio

abbrev Bindings := List (Text × Text)

namespace Bindings

/-- The value of a name: the first one in the list. -/
def get? (bindings : Bindings) (name : Text) : Option Text := bindings.lookup name

def names (bindings : Bindings) : List Text := bindings.map (·.1)

/-- Give a name a value: at its old place if it has one, else at the end. -/
def set (bindings : Bindings) (name value : Text) : Bindings :=
  match bindings with
  | [] => [(name, value)]
  | (other, old) :: rest =>
    if other = name then (name, value) :: rest else (other, old) :: set rest name value

/-- Set the bindings of a list one after another. -/
def ofList (pairs : List (Text × Text)) : Bindings :=
  pairs.foldl (fun bindings (name, value) => bindings.set name value) []

/-- The names in increasing order, each once, with their values. -/
def sorted (bindings : Bindings) : List (Text × Text) :=
  (Text.sortedSet bindings.names).filterMap fun name =>
    (bindings.get? name).map fun value => (name, value)

end Bindings

end Folio
