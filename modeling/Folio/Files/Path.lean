import Folio.Text.Basic

/-!
# Paths

A path is read from a text once: repeated slashes, slashes at the end and parts `.` are dropped,
parts `..` are kept. A location is an absolute path without `..`, given by its parts from the root.
-/

namespace Folio

/-- The parts of an absolute path from the root. -/
abbrev Location := List Text

inductive Anchor where
  /-- At the working folder. -/
  | relative
  /-- At the root. -/
  | root
  /-- At the root, written with two slashes. -/
  | doubleRoot
  deriving DecidableEq, Repr

structure Path where
  anchor : Anchor
  parts : List Text
  deriving DecidableEq, Repr

namespace Path

/-- Where the path with this text starts. -/
def anchorOf (text : Text) : Anchor :=
  match (text.takeWhile (· == '/')).length with
  | 0 => .relative
  | 2 => .doubleRoot
  | _ => .root

def parse (text : Text) : Path where
  anchor := anchorOf text
  parts := (text.splitOn '/').filter fun part => part ≠ [] && part ≠ ("." : Text)

def text (path : Path) : Text :=
  match path.anchor with
  | .relative => if path.parts = [] then "." else Text.join "/" path.parts
  | .root => "/" ++ Text.join "/" path.parts
  | .doubleRoot => "//" ++ Text.join "/" path.parts

/-- The path that leads to a location. -/
def ofLocation (location : Location) : Path := ⟨.root, location⟩

/-- Follow a path from the end of another; an absolute one stands for itself. -/
def append (path other : Path) : Path :=
  match other.anchor with
  | .relative => { path with parts := path.parts ++ other.parts }
  | _ => other

/-- The path of an entry inside a folder. -/
def child (path : Path) (text : Text) : Path := path.append (parse text)

def parent (path : Path) : Path := { path with parts := path.parts.dropLast }

def name (path : Path) : Text := path.parts.getLast?.getD []

/-- A name cut before its last dot, if the dot is neither its first nor its last character. -/
def splitName (name : Text) : Text × Text :=
  let suffix := name.reverse.takeWhile (· ≠ '.') |>.reverse
  let stem := name.take (name.length - suffix.length - 1)
  if '.' ∈ name && suffix ≠ [] && stem ≠ [] then (stem, '.' :: suffix) else (name, [])

/-- The last part of a path without its ending. -/
def stem (path : Path) : Text := (splitName path.name).1

/-- The ending of the last part of a path, with its dot. -/
def ending (path : Path) : Text := (splitName path.name).2

/-- Take the steps of a path one after another, where `..` goes up. -/
def walk (start : Location) (parts : List Text) : Location :=
  parts.foldl (fun location part =>
    if part = (".." : Text) then location.dropLast else location ++ [part]) start

/-- Where a path leads from a working folder, by its text alone. -/
def resolve (home : Location) (path : Path) : Location :=
  walk (if path.anchor = .relative then home else []) path.parts

/-- The path to the same place that starts at the root. -/
def absolute (home : Location) (path : Path) : Path where
  anchor := if path.anchor = .doubleRoot then .doubleRoot else .root
  parts := path.resolve home

end Path

end Folio
