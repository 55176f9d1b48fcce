import Folio.Files.Tree
import Folio.Watch.Debounce

/-!
# Events from two looks at the files

Where the system does not tell when files change, a folder is looked at again and again, and the
differences between two looks are taken for events.
-/

namespace Folio.Watch

/-- The events of the files directly in a folder between two looks at the file tree. -/
def eventsBetween {τ : Type} (folder : Location) (now : τ) (earlier later : FileTree) :
    List (Event τ) :=
  (earlier.changedFiles later).filterMap fun (location, _) =>
    if location.dropLast = folder then
      some {
        time := now
        path := (Path.ofLocation location).text
        change := if (earlier.get? location).isSome then .modified else .created
        isFolder := false }
    else none

end Folio.Watch
