import Folio.Files.Tree
import Folio.Text.Lines
import Folio.Text.Quoted
import Folio.Text.Utf8

/-!
# Access to files

Following a path goes from folder to folder, so a path that leads through something that is not
there, or is a file, goes wrong, even if a later `..` would leave it again.

Names have at most `nameLimit` bytes and whole paths at most `pathLimit`. Looking for something that
is not there is no error, but looking for something that is too long is one (`lookAt`).
-/

namespace Folio

inductive Obstacle where
  | missing
  | notFolder
  | isFolder
  | occupied
  /-- The path, or a name on it, is too long. -/
  | tooLong
  /-- The path has the character NUL, which no path can have. -/
  | nul
  deriving DecidableEq, Repr

/-- An obstacle met at a path, given as it was written. -/
structure FileError where
  obstacle : Obstacle
  path : Text
  deriving DecidableEq, Repr

def FileError.message (error : FileError) : Text :=
  match error.obstacle with
  | .missing => "[Errno 2] No such file or directory: " ++ error.path.quoted
  | .notFolder => "[Errno 20] Not a directory: " ++ error.path.quoted
  | .isFolder => "[Errno 21] Is a directory: " ++ error.path.quoted
  | .occupied => "[Errno 17] File exists: " ++ error.path.quoted
  | .tooLong => "[Errno 36] File name too long: " ++ error.path.quoted
  | .nul => "embedded null byte"

/-- The greatest number of bytes that a name can have. -/
def nameLimit : Nat := 255

/-- The greatest number of bytes that a path can have. -/
def pathLimit : Nat := 4095

/-- The place to which a text leads from a folder, by the text alone, as a path from the root. -/
def Path.settle (home : Location) (folder : Path) (text : Text) : Except FileError Path :=
  if '\x00' ∈ text then .error ⟨.nul, text⟩
  else .ok (Path.ofLocation ((folder.child text).resolve home))

/-- A way into the tree as it was written: where it starts, its steps, and whether a slash follows
the last of them. Parts `.` count as steps, since only a folder has them. -/
structure Route where
  text : Text
  anchor : Anchor
  steps : List Text
  closed : Bool
  deriving DecidableEq, Repr

/-- The way that a text describes. -/
def Route.parse (text : Text) : Route where
  text := text
  anchor := Path.anchorOf text
  steps := (text.splitOn '/').filter (· ≠ [])
  closed := text.getLast? = some '/'

/-- The way that a path describes. -/
def Path.route (path : Path) : Route := ⟨path.text, path.anchor, path.parts, false⟩

namespace FileTree

/-- Follow steps from a location. Every step needs a folder to start from, and a name that an entry
of a folder can have. -/
def follow (tree : FileTree) : Location → List Text → Except Obstacle Location
  | location, [] => .ok location
  | location, step :: steps =>
    match tree.get? location with
    | none => .error .missing
    | some (.file _) => .error .notFolder
    | some .folder =>
      if nameLimit < Utf8.size step then .error .tooLong
      else if step = (".." : Text) then tree.follow location.dropLast steps
      else if step = ("." : Text) then tree.follow location steps
      else tree.follow (location ++ [step]) steps

/-- Where a way leads. The empty text leads nowhere. -/
def locate (tree : FileTree) (home : Location) (route : Route) : Except Obstacle Location :=
  if route.text = [] then .error .missing
  else if '\x00' ∈ route.text then .error .nul
  else if pathLimit < Utf8.size route.text then .error .tooLong
  else
    let start := if route.anchor = .relative then home else []
    tree.follow start (if route.closed then route.steps ++ [("." : Text)] else route.steps)

/-- The entry at the end of a way, if there is one. A way that is too long is refused; any other
obstacle means that there is nothing. -/
def lookAt (tree : FileTree) (home : Location) (route : Route) :
    Except FileError (Option Entry) :=
  match tree.locate home route with
  | .ok location => .ok (tree.get? location)
  | .error .tooLong => .error ⟨.tooLong, route.text⟩
  | .error _ => .ok none

/-- Is there something at the end of a way? -/
def existsAt (tree : FileTree) (home : Location) (route : Route) : Bool :=
  match tree.lookAt home route with
  | .ok (some _) => true
  | _ => false

/-- Is there a folder at the end of a way? -/
def isFolderAt (tree : FileTree) (home : Location) (route : Route) : Bool :=
  match tree.locate home route with
  | .ok location => tree.isFolder location
  | .error _ => false

/-- The bytes of the file at the end of a way. -/
def readBytes (tree : FileTree) (home : Location) (route : Route) : Except FileError ByteArray :=
  match tree.locate home route with
  | .error obstacle => .error ⟨obstacle, route.text⟩
  | .ok location =>
    match tree.get? location with
    | none => .error ⟨.missing, route.text⟩
    | some .folder => .error ⟨.isFolder, route.text⟩
    | some (.file content) => .ok content

end FileTree

inductive ReadError where
  /-- There is no file to read. -/
  | file (error : FileError)
  /-- The bytes of the file are no text. -/
  | undecodable (fault : Utf8.Fault)
  deriving DecidableEq, Repr

def ReadError.message : ReadError → Text
  | file error => error.message
  | undecodable fault => fault.message

namespace FileTree

/-- The text of the file at the end of a way, with its line breaks normalised. -/
def readText (tree : FileTree) (home : Location) (route : Route) : Except ReadError Text :=
  match tree.readBytes home route with
  | .error error => .error (.file error)
  | .ok content =>
    match Utf8.decode content with
    | .error fault => .error (.undecodable fault)
    | .ok text => .ok text.normalizeBreaks

/-- Write the file at the end of a way. A new file needs its folder. A slash at the end asks for a
folder, which is not written, whatever its name. -/
def writeBytes (tree : FileTree) (home : Location) (route : Route) (content : ByteArray) :
    Except FileError FileTree :=
  let steps := if route.closed then route.steps.dropLast ++ [("." : Text)] else route.steps
  match tree.locate home { route with steps, closed := false } with
  | .error obstacle => .error ⟨obstacle, route.text⟩
  | .ok location =>
    if route.closed || tree.isFolder location then .error ⟨.isFolder, route.text⟩
    else .ok (tree.insert location (.file content))

/-- Make one folder in a folder that is there. -/
def makeFolder (tree : FileTree) (home : Location) (path : Path) : Except Obstacle FileTree :=
  match tree.locate home path.route with
  | .error obstacle => .error obstacle
  | .ok location =>
    if (tree.get? location).isSome then .error .occupied
    else .ok (tree.insert location .folder)

/-- Make a folder and what is missing above it; a folder that is there already is fine. The number
bounds the folders above. The tree is also given if it goes wrong, since some folders may have been
made. -/
def makeFoldersUpTo (home : Location) :
    (height : Nat) → Path → FileTree → FileTree × Except FileError Unit
  | height, path, tree =>
    match tree.makeFolder home path with
    | .ok made => (made, .ok ())
    | .error obstacle =>
      match height, obstacle with
      | height + 1, .missing =>
        match makeFoldersUpTo home height path.parent tree with
        | (above, .error error) => (above, .error error)
        | (above, .ok ()) =>
          match above.makeFolder home path with
          | .ok made => (made, .ok ())
          | .error obstacle =>
            if obstacle ≠ .missing && above.isFolderAt home path.route then (above, .ok ())
            else (above, .error ⟨obstacle, path.text⟩)
      | _, _ =>
        if obstacle ≠ .missing && tree.isFolderAt home path.route then (tree, .ok ())
        else (tree, .error ⟨obstacle, path.text⟩)

/-- Make a folder and what is missing above it. -/
def makeFolders (tree : FileTree) (home : Location) (path : Path) :
    FileTree × Except FileError Unit :=
  makeFoldersUpTo home path.parts.length path tree

/-- The paths of the entries of a folder whose names end as given, in increasing order. A path that
leads to no folder has none, but one that is too long is refused. -/
def list (tree : FileTree) (home : Location) (path : Path) (ending : Text) :
    Except FileError (List Path) :=
  match tree.locate home path.route with
  | .error .tooLong => .error ⟨.tooLong, path.text⟩
  | .error _ => .ok []
  | .ok location =>
    if tree.isFolder location then
      .ok (((tree.children location).filter fun name => ending.isSuffixOf name).map fun name =>
        { path with parts := path.parts ++ [name] })
    else .ok []

end FileTree

end Folio
