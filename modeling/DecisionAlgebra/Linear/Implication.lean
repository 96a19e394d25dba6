import DecisionAlgebra.Linear.Split

/-!
# Implication between bounds

A linear constraint on one variable is a bound on it, and of two bounds on one variable it can be
decided whether the first implies the second.
-/

namespace DecisionAlgebra

variable {α : Type}

/-- A variable in the given sense to a value. -/
structure Bound (α : Type) where
  variableId : VariableId
  sense : Sense
  value : α

/-- Whether a bound implies another on the same variable. An inequality implies only inequalities of
its own sense. -/
def Bound.implies [LE α] [DecidableLE α] [BEq α] (a b : Bound α) : Bool :=
  match a.sense, b.sense with
  | .lessEqual, .lessEqual => a.value ≤ b.value
  | .greaterEqual, .greaterEqual => b.value ≤ a.value
  | .equal, sense => sense.holds a.value b.value
  | _, _ => false

/-- The sum of the coefficients of a variable in the terms of degree one. -/
def Polynomial.slope [Zero α] [Add α] [Neg α] (p : Polynomial α) (v : Variable α) : α :=
  total ((p.monomials.filter fun m => m.linearVariable == some v).map (·.coefficient))

namespace ScalarConstraint

/-- The bound that a constraint on one variable sets. Division by a negative coefficient turns the
sense around. -/
def bound [Zero α] [One α] [Add α] [Neg α] [Mul α] [Div α] [LT α] [DecidableLT α] [BEq α]
    [Numeral α] (side : Side) (c : ScalarConstraint α) : Except Error (Bound α) :=
  match c.check with
  | .error source => .error (.invalidOperand .implies side source)
  | .ok () =>
    let left := c.split.1
    match left.occurring with
    | [v] =>
      if left.isLinear then
        let k := left.slope v
        .ok ⟨v.id, if k < 0 then c.sense.flipped else c.sense, c.split.2 / k⟩
      else .error (.notLinear (some side) c.text)
    | vs => .error (.notSingleVariable vs.length)

/-- Whether every point that satisfies the first constraint satisfies the second. Both must be
linear in one and the same variable. -/
def implies [Zero α] [One α] [Add α] [Neg α] [Mul α] [Div α] [LE α] [DecidableLE α] [LT α]
    [DecidableLT α] [BEq α] [Numeral α] (a b : ScalarConstraint α) : Traced Bool := do
  let premise ← Traced.quiet (Attempt.checked (a.bound .left))
  let conclusion ← Traced.quiet (Attempt.checked (b.bound .right))
  if premise.variableId = conclusion.variableId then
    let implied := premise.implies conclusion
    Traced.emit (.comparedBounds premise.sense conclusion.sense implied)
    return implied
  else Traced.refuse (.differentVariables premise.variableId conclusion.variableId)

end ScalarConstraint

end DecisionAlgebra
