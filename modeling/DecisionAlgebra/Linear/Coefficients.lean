import DecisionAlgebra.Dense

/-!
# Linear coefficients

The coefficients of a linear expression, one row for each element and one column for each variable
of an ordering. A variable that the ordering lists twice has its coefficient at its first place.
-/

namespace DecisionAlgebra

variable {α : Type}

/-- The given ordering, or the variables of the expression itself when it has any. -/
def resolveOrdering (wrt : Option (List (Variable α))) (own : List (Variable α)) :
    Except Error (List (Variable α)) :=
  match wrt with
  | some ordering => .ok ordering
  | none => if own.isEmpty then .error .noOrdering else .ok own

/-- Add the coefficient of a monomial of degree one to the entry of its variable. Other monomials
change nothing. -/
def addCoefficient [Add α] (ordering : List (Variable α)) (row : List α) (m : Monomial α) :
    Except Error (List α) :=
  match m.linearVariable with
  | none => .ok row
  | some v =>
    match ordering.findIdx? (· == v) with
    | some i => .ok (row.modify i (· + m.coefficient))
    | none => .error (.notInOrdering v.id)

/-- The coefficient of each variable of an ordering in a sum of monomials of degree at most one. -/
def coefficientRow [Zero α] [Add α] (ms : List (Monomial α)) (ordering : List (Variable α)) :
    Except Error (List α) :=
  ms.foldlM (addCoefficient ordering) (List.replicate ordering.length 0)

/-- Check a scalar, which must be linear, and read off its coefficients. -/
def Scalar.linearCoefficients [Zero α] [One α] [Add α] [Neg α] [BEq α] [Numeral α] (s : Scalar α)
    (wrt : Option (List (Variable α))) : Except Error (List α) := do
  s.check
  unless s.isLinear do throw (.notLinear none s.text)
  let ordering ← resolveOrdering wrt s.occurring
  coefficientRow s.toMonomials ordering

/-- Check an expression, which must be linear, and read off the coefficients of every element. -/
def Expression.linearCoefficients [Zero α] [One α] [Add α] [Neg α] [BEq α] [Numeral α]
    (e : Expression α) (wrt : Option (List (Variable α))) : Outcome (DenseMatrix α) := do
  Attempt.checked e.check
  unless e.isLinear do
    let text ← Attempt.read e.text
    Attempt.refuse (.notLinear none text)
  let ordering ← Attempt.checked (resolveOrdering wrt e.occurring)
  let rows ← Attempt.checked (e.elements.mapM fun s => coefficientRow s.toMonomials ordering)
  Attempt.read (DenseMatrix.ofRowMajor? rows.length ordering.length rows.flatten)

end DecisionAlgebra
