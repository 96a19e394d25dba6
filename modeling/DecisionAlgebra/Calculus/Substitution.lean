import DecisionAlgebra.Algebra.Product

/-!
# Substitution

A variable is replaced by a scalar in every term that contains it; the sum of the terms is then
simplified. Several replacements are made one after the other, so a later one also acts on what an
earlier one has brought in.
-/

namespace DecisionAlgebra

variable {α : Type}

/-- The factors other than a variable, under the same coefficient. -/
def Monomial.without (m : Monomial α) (v : Variable α) : Monomial α :=
  ofFactors m.coefficient (m.factors.filter fun f => !(f.1 == v))

/-- A monomial with a variable replaced. -/
def Monomial.substitute [One α] [Mul α] (m : Monomial α) (v : Variable α) (replacement : Scalar α) :
    Option (Scalar α) :=
  if m.contains v then do
    let power ← replacement.power (m.exponentOf v).toNat
    (Scalar.monomial (m.without v)).times power
  else some (.monomial m)

/-- A scalar with a variable replaced. A polynomial stays a polynomial. -/
def Scalar.substitute [Zero α] [One α] [Add α] [Mul α] [BEq α] (s : Scalar α) (v : Variable α)
    (replacement : Scalar α) : Option (Scalar α) :=
  match s with
  | .constant c => some (.constant c)
  | .variable w => some (if w == v then replacement else .variable w)
  | .monomial m => (m.substitute v replacement).map Scalar.simplified
  | .polynomial p => do
    let terms ← p.monomials.mapM (·.substitute v replacement)
    return .polynomial (Scalar.sum terms).toPolynomial.simplified

namespace Expression

/-- Check an expression, a variable and its replacement, which must be a scalar, and replace the
variable in every element. -/
def substitute [Zero α] [One α] [Add α] [Mul α] [BEq α] (e : Expression α) (v : Variable α)
    (replacement : Expression α) : Traced (Expression α) := do
  e.checkOperand .substitute .left
  (Expression.scalar (.variable v)).checkOperand .substitute .right
  replacement.checkOperand .substitute .right
  match replacement.toScalar? with
  | none => Traced.refuse (.unsupportedInput .substitution replacement.typeName)
  | some s =>
    Traced.quiet do
      let g ← Attempt.read ((Grid.ofExpression e).mapM? (·.substitute v s))
      Attempt.checked g.toExpression

/-- Replace variables one after the other. -/
def substituteAll [Zero α] [One α] [Add α] [Mul α] [BEq α] (e : Expression α)
    (subs : List (Variable α × Scalar α)) : Traced (Expression α) :=
  subs.foldlM (fun e s => e.substitute s.1 (.scalar s.2)) e

end Expression

end DecisionAlgebra
