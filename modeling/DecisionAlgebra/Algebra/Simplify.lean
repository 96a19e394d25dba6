import DecisionAlgebra.Grid

/-!
# Simplification

Simplifying combines the like terms of every element. The type of the expression stays: a polynomial
that has become a single number is still a polynomial.
-/

namespace DecisionAlgebra

variable {α : Type}

/-- An entry of a kind with its like terms combined. -/
def Kind.simplifyEntry [Zero α] [Add α] [BEq α] : (k : Kind) → k.Entry α → k.Entry α
  | .constant, c => c
  | .variable, v => v
  | .monomial, m => m.normalized
  | .polynomial, p => p.simplified

/-- Check a scalar and combine its like terms. -/
def Scalar.simplify [Zero α] [Add α] [BEq α] (s : Scalar α) : Except Error (Scalar α) := do
  s.check
  return s.simplified

namespace Expression

/-- The expression with the like terms of every element combined. -/
def simplified [Zero α] [Add α] [BEq α] : Expression α → Expression α
  | .scalar s => .scalar s.simplified
  | .vector k c => .vector k (c.map k.simplifyEntry)
  | .matrix k m => .matrix k (m.map k.simplifyEntry)

/-- What simplifying tells: the numbers of terms of a scalar polynomial, and nothing about other
expressions. -/
def simplifyEvents [Zero α] [Add α] [BEq α] : Expression α → List Event
  | .scalar (.polynomial p) =>
    [.combinedTerms p.monomials.length p.simplified.monomials.length]
  | _ => []

/-- Check an expression and combine its like terms. -/
def simplify [Zero α] [Add α] [BEq α] (e : Expression α) : Traced (Expression α) := do
  Traced.quiet (Attempt.checked e.check)
  e.simplifyEvents.forM Traced.emit
  return e.simplified

end Expression

end DecisionAlgebra
