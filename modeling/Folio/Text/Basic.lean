/-!
# Texts

A text is a list of characters. Every function of the library that scans a text recurses on that
list, so each of them ends and each of them computes inside a proof.

Characters are Unicode scalar values, so every text can be written in UTF-8. An argument or a file
name with bytes that are not UTF-8 is not a text, and nothing is said of commands that are given
one.

String literals stand for texts where a text is expected.
-/

namespace Folio

/-- A text: its characters in order. -/
abbrev Text := List Char

instance : Coe String Text := ⟨String.toList⟩

namespace Text

/-- Whether a text is in a list is decided by comparing it with the members. -/
instance decidableMem (text : Text) (texts : List Text) : Decidable (text ∈ texts) := inferInstance

def ofNat (n : Nat) : Text := Nat.toDigits 10 n

/-- The decimal numeral of an integer, with a sign if it is negative. -/
def ofInt : Int → Text
  | .ofNat n => ofNat n
  | .negSucc n => '-' :: ofNat (n + 1)

/-- The texts one after another, with a separator between neighbours. -/
def join (separator : Text) (texts : List Text) : Text :=
  List.intercalate separator texts

/-- Cut a text at the first place where the mark stands: what is before it and what follows it. -/
def cutAt (text mark : Text) : Option (Text × Text) :=
  match text with
  | [] => none
  | c :: rest =>
    if mark.isPrefixOf (c :: rest) then some ([], (c :: rest).drop mark.length)
    else (cutAt rest mark).map fun (before, after) => (c :: before, after)

/-- The pieces between the separators; there is one more piece than separators. -/
def splitOn (separator : Char) : Text → List Text
  | [] => [[]]
  | c :: rest =>
    match splitOn separator rest with
    | [] => [[c]]
    | piece :: pieces =>
      if c = separator then [] :: piece :: pieces else (c :: piece) :: pieces

/-- Replace every occurrence of a non-empty text, reading from the left, after dropping the
characters that an occurrence found earlier still covers. -/
def replaceFrom (old new : Text) : (covered : Nat) → Text → Text
  | _, [] => []
  | covered + 1, _ :: rest => replaceFrom old new covered rest
  | 0, c :: rest =>
    if old.isPrefixOf (c :: rest) then new ++ replaceFrom old new (old.length - 1) rest
    else c :: replaceFrom old new 0 rest

/-- Replace every occurrence of one text by another. The empty text occurs before every character
and at the end. -/
def replace (text old new : Text) : Text :=
  match old with
  | [] => text.flatMap (fun c => new ++ [c]) ++ new
  | _ :: _ => replaceFrom old new 0 text

/-- Insert a text into an increasing list, unless it is there already. Texts are ordered by the
code points of their characters. -/
def insertSorted (text : Text) : List Text → List Text
  | [] => [text]
  | other :: others =>
    if text = other then other :: others
    else if text < other then text :: other :: others
    else other :: insertSorted text others

/-- The members of a list in increasing order, each once. -/
def sortedSet (texts : List Text) : List Text :=
  texts.foldr insertSorted []

/-- The text with the letters A to Z in lower case and every other character as it is. -/
def lowerAscii (text : Text) : Text := text.map Char.toLower

end Text

end Folio
