import Folio.Text.Quoted

/-!
# Messages to a browser

A message has a number, a method and parameters, and is written as an object in JSON, in which every
character outside the printable ones of ASCII is escaped.
-/

namespace Folio.Remote

inductive Value where
  | text (content : Text)
  | number (n : Nat)
  | boolean (b : Bool)
  deriving DecidableEq, Repr

structure Message where
  id : Nat
  method : Text
  parameters : List (Text × Value)
  deriving DecidableEq, Repr

/-- The code units of a character: one, or a surrogate pair. -/
def codeUnits (c : Char) : List Nat :=
  let n := c.toNat
  if n < 0x10000 then [n]
  else [0xD800 + (n - 0x10000) / 0x400, 0xDC00 + (n - 0x10000) % 0x400]

def escapeChar (c : Char) : Text :=
  if c = '"' then "\\\""
  else if c = '\\' then "\\\\"
  else if c = '\n' then "\\n"
  else if c = '\r' then "\\r"
  else if c = '\t' then "\\t"
  else if c = '\x08' then "\\b"
  else if c = '\x0c' then "\\f"
  else if 0x20 ≤ c.toNat && c.toNat < 0x7F then [c]
  else (codeUnits c).flatMap fun unit => "\\u" ++ Text.hex 4 unit

def string (text : Text) : Text := '"' :: text.flatMap escapeChar ++ ['"']

def Value.render : Value → Text
  | text content => string content
  | number n => Text.ofNat n
  | boolean b => if b then "true" else "false"

/-- An object as it is written, its values being written already. -/
def object (fields : List (Text × Text)) : Text :=
  "\x7b" ++ Text.join ", " (fields.map fun (name, value) => string name ++ ": " ++ value) ++ "\x7d"

def Message.render (message : Message) : Text :=
  object [
    ("id", Text.ofNat message.id),
    ("method", string message.method),
    ("params", object (message.parameters.map fun (name, value) => (name, value.render)))]

end Folio.Remote
