/-!
# Sets of characters

A property of characters is tabulated as the inclusive ranges of code points that have it, in
ascending order. A look-up walks the ranges and stops at the first that ends at the character or
above it.
-/

namespace Formula.Text

/-- A set of characters, as ascending inclusive ranges of code points. -/
structure CharSet where
  ranges : List (Nat × Nat)

namespace CharSet

/-- Whether one of the ranges holds `n`, looking no further than ranges below it go. -/
def holds (n : Nat) : List (Nat × Nat) → Bool
  | [] => false
  | (first, last) :: rest => if n ≤ last then decide (first ≤ n) else holds n rest

def contains (s : CharSet) (c : Char) : Bool := holds c.toNat s.ranges

end CharSet

end Formula.Text
