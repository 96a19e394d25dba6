import DecisionAlgebra.Linear.Coefficients
import DecisionAlgebra.Linear.Split

/-!
# Linear forms and systems

A linear constraint as an inner product with a list of variables, compared with a number: a form for
a constraint between scalars, a system with one row for each element otherwise. Greater-or-equal is
turned into less-or-equal by changing all signs.
-/

namespace DecisionAlgebra

variable {α : Type}

/-- The inner product of the coefficients with the variables of an ordering, in a sense to a
constant. -/
structure LinearForm (α : Type) where
  coefficients : List α
  constant : α
  ordering : List (Variable α)
  sense : Sense

/-- One linear form for each row, over the same ordering and in the same sense. -/
structure LinearSystem (α : Type) where
  coefficients : DenseMatrix α
  constants : List α
  ordering : List (Variable α)
  sense : Sense

instance [BEq α] : BEq (LinearForm α) :=
  ⟨fun a b => a.coefficients == b.coefficients && a.constant == b.constant &&
    a.ordering == b.ordering && a.sense == b.sense⟩

instance [BEq α] : BEq (LinearSystem α) :=
  ⟨fun a b => a.coefficients == b.coefficients && a.constants == b.constants &&
    a.ordering == b.ordering && a.sense == b.sense⟩

/-! ## Truth at a point -/

/-- Whether the relation holds at a point, which must give every variable of the ordering a value.
There is no answer for a form with more or fewer coefficients than variables. -/
def LinearForm.isSatisfied [Zero α] [Add α] [Mul α] [LE α] [DecidableLE α] [BEq α]
    (f : LinearForm α) (p : Point α) : Outcome Bool := do
  let x ← Attempt.checked (f.ordering.mapM p.value)
  let value ← Attempt.read (laneDot? f.coefficients x)
  return f.sense.holds value f.constant

/-- Whether the relation holds in every row at a point, which must give every variable of the
ordering a value. There is no answer for a system with more or fewer columns than variables. -/
def LinearSystem.isSatisfied [Zero α] [Add α] [Mul α] [LE α] [DecidableLE α] [BEq α]
    (s : LinearSystem α) (p : Point α) : Outcome Bool := do
  let x ← Attempt.checked (s.ordering.mapM p.value)
  if s.coefficients.cols = x.length then
    let values := s.coefficients.toRows.map (rowDot · x)
    return (values.zip s.constants).all fun r => s.sense.holds r.1 r.2
  else throw .outOfRange

/-! ## Extraction -/

/-- Refuse equalities. -/
def Sense.requireInequality (s : Sense) : Except Error Unit :=
  if s.isInequality then .ok () else .error (.inequalityRequired s)

/-- Refuse inequalities. -/
def Sense.requireEquality (s : Sense) : Except Error Unit :=
  if s.isInequality then .error (.equalityRequired s) else .ok ()

/-- Refuse a side of a constraint that is not linear. -/
def Expression.requireLinear [One α] [Neg α] [BEq α] [Numeral α] (side : Side)
    (e : Expression α) : Outcome Unit := do
  unless e.isLinear do
    let text ← Attempt.read e.text
    Attempt.refuse (.notLinear (some side) text)

namespace ScalarConstraint

/-- The linear form of a constraint between linear scalars. -/
def toForm [Zero α] [One α] [Add α] [Neg α] [Mul α] [BEq α] [Numeral α] (c : ScalarConstraint α)
    (wrt : Option (List (Variable α))) : Outcome (LinearForm α) := do
  (Expression.scalar c.left).requireLinear .left
  (Expression.scalar c.right).requireLinear .right
  let ordering := wrt.getD c.occurring
  let row ← Attempt.checked (coefficientRow c.split.1.monomials ordering)
  match c.sense with
  | .greaterEqual => return ⟨row.map (-·), -c.split.2, ordering, .lessEqual⟩
  | sense => return ⟨row, c.split.2, ordering, sense⟩

/-- Extract the linear form and tell. -/
def linearForm [Zero α] [One α] [Add α] [Neg α] [Mul α] [BEq α] [Numeral α]
    (c : ScalarConstraint α) (wrt : Option (List (Variable α))) : Traced (LinearForm α) := do
  let f ← Traced.quiet (c.toForm wrt)
  Traced.emit (.linearForm f.sense f.ordering.length)
  return f

/-- Check an inequality and extract its linear form. -/
def linearInequality [Zero α] [One α] [Add α] [Neg α] [Mul α] [BEq α] [Numeral α]
    (c : ScalarConstraint α) (wrt : Option (List (Variable α))) : Traced (LinearForm α) := do
  Traced.quiet (Attempt.checked c.check)
  Traced.quiet (Attempt.checked c.sense.requireInequality)
  c.linearForm wrt

/-- Check an equality and extract its linear form. -/
def linearEquality [Zero α] [One α] [Add α] [Neg α] [Mul α] [BEq α] [Numeral α]
    (c : ScalarConstraint α) (wrt : Option (List (Variable α))) : Traced (LinearForm α) := do
  Traced.quiet (Attempt.checked c.check)
  Traced.quiet (Attempt.checked c.sense.requireEquality)
  c.linearForm wrt

end ScalarConstraint

namespace Constraint

/-- One row of a system: the coefficients and the constant of an element, each times `sign`. -/
def signedRow [Zero α] [One α] [Add α] [Neg α] [Mul α] [BEq α] (sign : α)
    (ordering : List (Variable α)) (c : ScalarConstraint α) : Except Error (List α × α) := do
  let row ← coefficientRow c.split.1.monomials ordering
  return (row.map (sign * ·), sign * c.split.2)

/-- The linear system of a constraint between linear sides. -/
def toSystem [Zero α] [One α] [Add α] [Neg α] [Mul α] [BEq α] [Numeral α] (c : Constraint α)
    (wrt : Option (List (Variable α))) : Outcome (LinearSystem α) := do
  let cs ← Attempt.read c.constraints?
  c.left.requireLinear .left
  c.right.requireLinear .right
  let ordering := wrt.getD c.occurring
  let sign : α := if c.sense = .greaterEqual then -1 else 1
  let rows ← Attempt.checked (cs.mapM (signedRow sign ordering))
  let coefficients ← Attempt.read
    (DenseMatrix.ofRowMajor? cs.length ordering.length (rows.flatMap (·.1)))
  let sense := if c.sense = .greaterEqual then .lessEqual else c.sense
  return ⟨coefficients, rows.map (·.2), ordering, sense⟩

/-- Extract the linear system and tell. -/
def linearSystem [Zero α] [One α] [Add α] [Neg α] [Mul α] [BEq α] [Numeral α] (c : Constraint α)
    (wrt : Option (List (Variable α))) : Traced (LinearSystem α) := do
  let s ← Traced.quiet (c.toSystem wrt)
  Traced.emit (.linearSystem s.sense s.coefficients.rows s.ordering.length)
  return s

/-- Check a constraint of any form and sense and extract its linear system. -/
def linearRepresentation [Zero α] [One α] [Add α] [Neg α] [Mul α] [BEq α] [Numeral α]
    (c : Constraint α) (wrt : Option (List (Variable α))) : Traced (LinearSystem α) := do
  Traced.quiet (Attempt.checked c.check)
  c.linearSystem wrt

/-- Check an inequality of any form and extract its linear system. -/
def linearInequality [Zero α] [One α] [Add α] [Neg α] [Mul α] [BEq α] [Numeral α]
    (c : Constraint α) (wrt : Option (List (Variable α))) : Traced (LinearSystem α) := do
  Traced.quiet (Attempt.checked c.check)
  Traced.quiet (Attempt.checked c.sense.requireInequality)
  c.linearSystem wrt

/-- Check an equality of any form and extract its linear system. -/
def linearEquality [Zero α] [One α] [Add α] [Neg α] [Mul α] [BEq α] [Numeral α]
    (c : Constraint α) (wrt : Option (List (Variable α))) : Traced (LinearSystem α) := do
  Traced.quiet (Attempt.checked c.check)
  Traced.quiet (Attempt.checked c.sense.requireEquality)
  c.linearSystem wrt

end Constraint

end DecisionAlgebra
