import DecisionAlgebra.Algebra.Sum

/-!
# Products of scalars
-/

namespace DecisionAlgebra.Scalar

variable {α : Type}

/-- The product of two scalars. Constants are multiplied as numbers, two scalars that are no
polynomials give a monomial, and everything else is multiplied out, the terms of the right varying
faster. -/
def times [One α] [Mul α] (l r : Scalar α) : Option (Scalar α) :=
  match l, r with
  | .constant a, .constant b => some (.constant (a * b))
  | l, r =>
    match l.asMonomial, r.asMonomial with
    | some a, some b => (a.times b).map .monomial
    | _, _ => (l.toPolynomial.distribute r.toMonomials).map .polynomial

/-- The scalar times minus one. -/
def negated [One α] [Neg α] [Mul α] (s : Scalar α) : Option (Scalar α) := s.times (.constant (-1))

/-- `result * base ^ n`, one factor after the other. -/
def timesPower [One α] [Mul α] (base : Scalar α) : Nat → Scalar α → Option (Scalar α)
  | 0, result => some result
  | n + 1, result => do timesPower base n (← result.times base)

/-- A scalar to a natural power; the power zero is the constant one. -/
def power [One α] [Mul α] (base : Scalar α) (n : Nat) : Option (Scalar α) :=
  base.timesPower n (.constant 1)

end DecisionAlgebra.Scalar
