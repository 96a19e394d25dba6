import DecisionAlgebra.Algebra.Product

/-!
# Powers of expressions
-/

namespace DecisionAlgebra

variable {α : Type}

/-- The largest exponent of a power. -/
def maxExponent : Nat := 4294967295

/-- The exponent of a power as a natural number; negative ones and ones too large are refused for
different causes. -/
def powerExponent (n : Int) : Except Error Nat :=
  if n < 0 then .error (.negativeExponent n)
  else if n ≤ maxExponent then .ok n.toNat
  else .error (.unsupportedInput .power ("exponent " ++ toString n))

/-- Check a scalar and raise it to a power. -/
def Scalar.raise [One α] [Mul α] (s : Scalar α) (n : Int) : Outcome (Scalar α) := do
  Attempt.checked s.check
  let n ← Attempt.checked (powerExponent n)
  Attempt.read (s.power n)

/-- Check an expression, which must be a scalar, and raise it to a power. -/
def Expression.power [One α] [Mul α] (e : Expression α) (n : Int) : Traced (Expression α) := do
  e.checkOperand .power .left
  match e.toScalar? with
  | none => Traced.refuse (.unsupportedInput .power e.typeName)
  | some s =>
    Traced.quiet do
      let n ← Attempt.checked (powerExponent n)
      return .scalar (← Attempt.read (s.power n))

end DecisionAlgebra
