import DecisionAlgebra.Constraint.Basic

/-!
# Comparing expressions

A comparison keeps both operands as they are and records the shape over which they are compared.
-/

namespace DecisionAlgebra.Expression

variable {α : Type}

/-- The constraint of a form and shape between two expressions. -/
def constraintOf (l r : Expression α) (sense : Sense) (form : Form) (shape : Shape) :
    Except Error (Constraint α) :=
  match form with
  | .vector => .ok (.vector ⟨l, r, sense, shape⟩)
  | .matrix => .ok (.matrix ⟨l, r, sense, shape⟩)
  | .scalar =>
    match l, r with
    | .scalar a, .scalar b => .ok (.scalar ⟨a, sense, b⟩)
    | l, r => .error (.unsupportedInput .comparison (l.typeName ++ " and " ++ r.typeName))

/-- The constraint that the left operand stands in a relation to the right one. -/
def compare (l r : Expression α) (sense : Sense) : Traced (Constraint α) := do
  checkOperands .comparison l r
  let (form, shape) ← Grid.layout .comparison (.ofExpression l) (.ofExpression r)
  Traced.quiet (Attempt.checked (constraintOf l r sense form shape))

end DecisionAlgebra.Expression
