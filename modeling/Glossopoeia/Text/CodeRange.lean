/-!
# Ranges of character codes

A property of characters is given as an ascending list of code ranges, both ends included.
-/

set_option autoImplicit false

namespace Glossopoeia.Text.CodeRange

/-- Does `n` lie in one of the ranges?  They ascend, so the first range above `n` ends the search.
-/
def mem : List (Nat × Nat) → Nat → Bool
  | [], _ => false
  | (first, last) :: rest, n =>
    if n < first then false else if n ≤ last then true else mem rest n

end Glossopoeia.Text.CodeRange
