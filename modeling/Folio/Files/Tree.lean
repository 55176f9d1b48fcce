import Folio.Files.Path

/-!
# File trees

A file tree holds files with their bytes, and folders. Its view is `get?`, the entry at a location;
two trees with the same view hold the same entries.
-/

namespace Folio

inductive Entry where
  | file (content : ByteArray)
  | folder

/-- Files are compared byte by byte. -/
instance : DecidableEq Entry
  | .file a, .file b =>
    if h : a.data = b.data then .isTrue (congrArg Entry.file (ByteArray.ext h))
    else .isFalse fun same => h (congrArg ByteArray.data (Entry.file.inj same))
  | .folder, .folder => .isTrue rfl
  | .file _, .folder => .isFalse nofun
  | .folder, .file _ => .isFalse nofun

/-- The entries at their locations. The root is a folder and is not listed. -/
structure FileTree where
  entries : List (Location × Entry)

namespace FileTree

def empty : FileTree := ⟨[]⟩

def get? (tree : FileTree) (location : Location) : Option Entry :=
  if location = [] then some .folder else tree.entries.lookup location

/-- Is there a folder at the location? -/
def isFolder (tree : FileTree) (location : Location) : Bool :=
  match tree.get? location with
  | some .folder => true
  | _ => false

def insert (tree : FileTree) (location : Location) (entry : Entry) : FileTree :=
  ⟨(location, entry) :: tree.entries.filter (·.1 ≠ location)⟩

/-- Take away the entry at a location and everything below it. -/
def erase (tree : FileTree) (location : Location) : FileTree :=
  ⟨tree.entries.filter fun (other, _) => !location.isPrefixOf other⟩

/-- The name under which a location stands in a folder, if it stands directly in it. -/
def nameIn? (folder location : Location) : Option Text :=
  if location.dropLast = folder then location.getLast? else none

/-- The names of the entries directly in a folder, in increasing order. -/
def children (tree : FileTree) (folder : Location) : List Text :=
  Text.sortedSet (tree.entries.filterMap fun (location, _) => nameIn? folder location)

/-- Put a file at a location and make the folders above it. -/
def place (tree : FileTree) (location : Location) (content : ByteArray) : FileTree :=
  let folders := (List.range location.length).map fun n => location.take n
  (folders.foldl (fun tree folder =>
    if (tree.get? folder).isNone then tree.insert folder .folder else tree) tree).insert location
    (.file content)

/-- Make a folder at a location, and the folders above it. -/
def placeFolder (tree : FileTree) (location : Location) : FileTree :=
  let folders := (List.range (location.length + 1)).map fun n => location.take n
  folders.foldl (fun tree folder =>
    if (tree.get? folder).isNone then tree.insert folder .folder else tree) tree

/-- The files that a later tree has and an earlier one has not, or has with other bytes. -/
def changedFiles (earlier later : FileTree) : List (Location × ByteArray) :=
  later.entries.filterMap fun (location, entry) =>
    match entry with
    | .file content =>
      if earlier.get? location = some (.file content) then none else some (location, content)
    | .folder => none

/-- The folders that a later tree has and an earlier one has not. -/
def newFolders (earlier later : FileTree) : List Location :=
  later.entries.filterMap fun (location, entry) =>
    if entry = .folder && !earlier.isFolder location then some location else none

end FileTree

end Folio
