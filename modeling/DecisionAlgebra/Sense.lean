/-!
# Comparison senses

The relation that a constraint asks for between its left and its right side.
-/

namespace DecisionAlgebra

/-- At most, at least, or equal. -/
inductive Sense where
  | lessEqual
  | greaterEqual
  | equal
  deriving DecidableEq, Repr

namespace Sense

/-- The short name of a sense. -/
def name : Sense → String
  | lessEqual => "le"
  | greaterEqual => "ge"
  | equal => "eq"

/-- The sign that stands between the sides of a constraint. -/
def symbol : Sense → String
  | lessEqual => "<="
  | greaterEqual => ">="
  | equal => "="

/-- The sense between the sides after both are multiplied by a negative number. -/
def flipped : Sense → Sense
  | lessEqual => greaterEqual
  | greaterEqual => lessEqual
  | equal => equal

/-- Whether the sense orders its sides. -/
def isInequality (s : Sense) : Bool := s ≠ equal

/-- Whether `l` stands in the relation to `r`; equality is exact. -/
def holds {α : Type} [LE α] [DecidableLE α] [BEq α] (s : Sense) (l r : α) : Bool :=
  match s with
  | lessEqual => l ≤ r
  | greaterEqual => r ≤ l
  | equal => l == r

end Sense

end DecisionAlgebra
