/-!
# Ranges of characters

A class of characters is a list of closed ranges of code points.
-/

namespace DecisionAlgebra.Text

/-- The code points from `first` to `last`, both of them included. -/
structure Range where
  first : Nat
  last : Nat

/-- Whether the code point of a character is in one of some ranges. -/
def inRanges (rs : List Range) (c : Char) : Bool :=
  rs.any fun r => r.first ≤ c.toNat && c.toNat ≤ r.last

end DecisionAlgebra.Text
