/-!
# Tables of code points

A table lists closed ranges of code points in increasing order; a look-up stops at the first range
that lies above the code point.
-/

namespace Folio.Text

/-- Is the code point in one of the ranges? The ranges increase. -/
def inRanges (n : Nat) : List (Nat × Nat) → Bool
  | [] => false
  | (first, last) :: rest => first ≤ n && (n ≤ last || inRanges n rest)

end Folio.Text
