import DecisionAlgebra.Grid

/-!
# Evaluation

A point gives values to variables. Evaluation needs a value for every factor as stored, also for one
whose exponent is zero.
-/

namespace DecisionAlgebra

variable {α : Type}

/-- Values of some variables, by identifier. -/
abbrev Point (α : Type) := VariableId → Option α

namespace Point

/-- No values. -/
def empty : Point α := fun _ => none

/-- One more value; an earlier value of the variable is replaced. -/
def set (p : Point α) (id : VariableId) (x : α) : Point α :=
  fun j => if j = id then some x else p j

/-- The point with the given values; of two values for one variable the later counts. -/
def ofList (xs : List (Variable α × α)) : Point α :=
  xs.foldl (fun p x => p.set x.1.id x.2) empty

/-- The value of a variable; refused when there is none. -/
def value (p : Point α) (v : Variable α) : Except Error α :=
  match p v.id with
  | some x => .ok x
  | none => .error (.unassigned v.id)

end Point

/-- The value of a monomial: its coefficient times the power of each factor, in stored order. -/
def Monomial.evaluate [One α] [Mul α] (m : Monomial α) (p : Point α) : Except Error α :=
  m.factors.foldlM (fun acc f => do
    return acc * factorPower (← p.value f.1) f.2.toNat) m.coefficient

/-- The value of a polynomial: the sum of the values of its monomials. -/
def Polynomial.evaluate [Zero α] [One α] [Add α] [Neg α] [Mul α] (q : Polynomial α)
    (p : Point α) : Except Error α := do
  return total (← q.monomials.mapM (·.evaluate p))

/-- The value of a scalar that need not be well-formed. -/
def Scalar.value [Zero α] [One α] [Add α] [Neg α] [Mul α] (s : Scalar α) (p : Point α) :
    Except Error α :=
  match s with
  | .constant c => .ok c
  | .variable v => p.value v
  | .monomial m => m.evaluate p
  | .polynomial q => q.evaluate p

/-- Check a scalar and evaluate it. -/
def Scalar.evaluate [Zero α] [One α] [Add α] [Neg α] [Mul α] (s : Scalar α) (p : Point α) :
    Except Error α := do
  s.check
  s.value p

/-- Check an expression and evaluate every element: a constant expression of the same form. -/
def Expression.evaluate [Zero α] [One α] [Add α] [Neg α] [Mul α] (e : Expression α)
    (p : Point α) : Except Error (Expression α) := do
  e.check
  let values ← e.elements.mapM (·.evaluate p)
  Grid.toExpression ⟨e.form, e.dims, values.map .constant⟩

end DecisionAlgebra
