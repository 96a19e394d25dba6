import DecisionAlgebra.Grid

/-!
# Derivatives

The derivative by a variable, term by term. Terms without the variable vanish, and where nothing
remains the derivative is the constant zero.
-/

namespace DecisionAlgebra

variable {α : Type}

/-- Lower the exponent of a variable in a factor by one. -/
def Monomial.lowerFactor (v : Variable α) (f : Variable α × UInt32) :
    Variable α × UInt32 :=
  if f.1 == v then (f.1, f.2 - 1) else f

/-- The derivative of a monomial by a variable that occurs in it; else there is none. -/
def Monomial.derivative? [NatCast α] [Mul α] (m : Monomial α) (v : Variable α) :
    Option (Monomial α) :=
  let e := m.exponentOf v
  if e = 0 then none
  else
    let lowered := (m.normalized.factors.map (lowerFactor v)).filter (0 < ·.2)
    some (ofFactors (m.coefficient * (e.toNat : α)) lowered)

/-- The derivative of a scalar. -/
def Scalar.derivative [Zero α] [One α] [NatCast α] [Mul α] (s : Scalar α) (v : Variable α) :
    Scalar α :=
  match s with
  | .constant _ => .constant 0
  | .variable w => .constant (if w == v then 1 else 0)
  | .monomial m =>
    match m.derivative? v with
    | some d => .monomial d
    | none => .constant 0
  | .polynomial p =>
    match p.monomials.filterMap (·.derivative? v) with
    | [] => .constant 0
    | ds => .polynomial ⟨ds⟩

/-- Check a scalar and a variable and take the derivative. -/
def Scalar.derivativeBy [Zero α] [One α] [NatCast α] [Mul α] (s : Scalar α) (v : Variable α) :
    Except Error (Scalar α) := do
  s.check
  Monomial.checkVariable v
  return s.derivative v

/-- Check an expression and a variable and take the derivative of every element. -/
def Expression.derivativeBy [Zero α] [One α] [NatCast α] [Mul α] (e : Expression α)
    (v : Variable α) : Traced (Expression α) := do
  e.checkOperand .derivative .left
  (Expression.scalar (.variable v)).checkOperand .derivative .right
  Traced.quiet (Attempt.checked ((Grid.ofExpression e).map (·.derivative v)).toExpression)

end DecisionAlgebra
