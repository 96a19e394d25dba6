import DecisionAlgebra.Constraint.Basic

/-!
# Variables left, constants right

Every constraint between scalars says the same as one between a simplified polynomial without a
constant term and a number.
-/

namespace DecisionAlgebra

variable {α : Type}

namespace ScalarConstraint

/-- The left side minus the right one, with like terms combined. -/
def difference [Zero α] [One α] [Add α] [Neg α] [Mul α] [BEq α] (c : ScalarConstraint α) :
    Polynomial α :=
  Polynomial.simplified ⟨c.left.toMonomials ++ c.right.toMonomials.map (·.scaled (-1))⟩

/-- The difference without its constant term, and the constant term with its sign changed. -/
def split [Zero α] [One α] [Add α] [Neg α] [Mul α] [BEq α] (c : ScalarConstraint α) :
    Polynomial α × α :=
  (c.difference.withoutConstant, -c.difference.constant)

/-- Check a constraint and bring its variables to the left and its constants to the right. -/
def simplified [Zero α] [One α] [Add α] [Neg α] [Mul α] [BEq α] (c : ScalarConstraint α) :
    Except Error (ScalarConstraint α) := do
  c.check
  return ⟨.polynomial c.split.1, c.sense, .constant c.split.2⟩

end ScalarConstraint

namespace Constraint

/-- Check a constraint and bring the variables of every element to the left and the constants to the
right. Form, shape and sense stay. -/
def simplified [Zero α] [One α] [Add α] [Neg α] [Mul α] [BEq α] (c : Constraint α) :
    Outcome (Constraint α) := do
  Attempt.checked c.check
  let cs ← Attempt.read c.constraints?
  let lefts := cs.map (·.split.1)
  let rights := cs.map (·.split.2)
  match c with
  | .scalar c => return .scalar (← Attempt.checked c.simplified)
  | .vector c =>
    return .vector ⟨.vector .polynomial ⟨lefts⟩, .vector .constant ⟨rights⟩, c.sense, c.shape⟩
  | .matrix c =>
    return .matrix ⟨.matrix .polynomial ⟨c.shape.rows, c.shape.cols, lefts⟩,
      .matrix .constant ⟨c.shape.rows, c.shape.cols, rights⟩, c.sense, c.shape⟩

end Constraint

end DecisionAlgebra
