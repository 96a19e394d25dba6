import DecisionAlgebra.Grid

/-!
# Sums of scalars

Like terms are combined only when both summands are single terms; anything else is put side by side.
-/

namespace DecisionAlgebra.Scalar

variable {α : Type}

/-- The sum of two scalars. Constants are added as numbers, two single terms of one signature become
one monomial, and in all other cases the terms of the right follow those of the left. -/
def plus [One α] [Add α] (l r : Scalar α) : Scalar α :=
  match l, r with
  | .constant a, .constant b => .constant (a + b)
  | l, r =>
    match l.asSingleMonomial, r.asSingleMonomial with
    | some a, some b =>
      if a.sameSignature b then .monomial (a.withCoefficient (a.coefficient + b.coefficient))
      else .polynomial (l.toPolynomial.append r.toMonomials)
    | _, _ => .polynomial (l.toPolynomial.append r.toMonomials)

/-- The sum of a list of scalars from the left; zero for the empty list. -/
def sum [Zero α] [One α] [Add α] : List (Scalar α) → Scalar α
  | [] => .constant 0
  | t :: ts => ts.foldl plus t

end DecisionAlgebra.Scalar
