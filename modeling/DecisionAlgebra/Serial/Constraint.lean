import DecisionAlgebra.Linear.Representation
import DecisionAlgebra.Serial.Expression

/-!
# Serial forms of constraints and linear systems

A constraint over a vector or a matrix is written with its recorded shape, which is read back as it
stands. Dense vectors and matrices are lists of their numbers, by columns, with their lengths; here
the lengths must be right.
-/

namespace DecisionAlgebra.Serial

variable {α : Type}

/-! ## Small parts -/

/-- The tag of a sense. -/
def senseTag : Sense → String
  | .lessEqual => "LessEqual"
  | .greaterEqual => "GreaterEqual"
  | .equal => "Equal"

/-- All senses. -/
def senses : List Sense := [.lessEqual, .greaterEqual, .equal]

/-- Write a sense. -/
def senseForm (s : Sense) : Json α := .string (senseTag s)

/-- Read a sense. -/
def readSense : Json α → Option Sense := readTag senseTag senses

/-- The tag of a form. -/
def formTag : Form → String
  | .scalar => "Scalar"
  | .vector => "Vector"
  | .matrix => "Matrix"

/-- All forms. -/
def forms : List Form := [.scalar, .vector, .matrix]

/-- Write a shape. -/
def shapeForm (s : Shape) : Json α := record [("rows", .count s.rows), ("cols", .count s.cols)]

/-- Read a shape. -/
def readShape (j : Json α) : Option Shape := do
  match ← readFields ["rows", "cols"] j with
  | [rows, cols] => return ⟨← readCount maxWord64 rows, ← readCount maxWord64 cols⟩
  | _ => none

/-! ## Constraints -/

/-- Write a constraint between scalars. -/
def scalarConstraintForm [Extended α] (c : ScalarConstraint α) : Json α :=
  record [("left", scalarForm c.left), ("right", scalarForm c.right), ("sense", senseForm c.sense)]

/-- Read a constraint between scalars. -/
def readScalarConstraint [IntCast α] [Extended α] (j : Json α) : Option (ScalarConstraint α) := do
  match ← readFields ["left", "right", "sense"] j with
  | [left, right, sense] =>
    let l ← readScalar left
    let r ← readScalar right
    return ⟨l, ← readSense sense, r⟩
  | _ => none

/-- Write a constraint between expressions. -/
def gridConstraintForm [Extended α] (c : GridConstraint α) : Json α :=
  record [("left", expressionForm c.left), ("right", expressionForm c.right),
    ("sense", senseForm c.sense), ("shape", shapeForm c.shape)]

/-- Read a constraint between expressions. -/
def readGridConstraint [IntCast α] [Extended α] (j : Json α) : Option (GridConstraint α) := do
  match ← readFields ["left", "right", "sense", "shape"] j with
  | [left, right, sense, shape] =>
    return ⟨← readExpression left, ← readExpression right, ← readSense sense, ← readShape shape⟩
  | _ => none

/-- Write a constraint under the name of its form. -/
def constraintForm [Extended α] : Constraint α → Json α
  | .scalar c => variant (formTag .scalar) (scalarConstraintForm c)
  | .vector c => variant (formTag .vector) (gridConstraintForm c)
  | .matrix c => variant (formTag .matrix) (gridConstraintForm c)

/-- Read the contents of a constraint of a form. -/
def readConstraintOf [IntCast α] [Extended α] (form : Form) (j : Json α) : Option (Constraint α) :=
  match form with
  | .scalar => (readScalarConstraint j).map .scalar
  | .vector => (readGridConstraint j).map .vector
  | .matrix => (readGridConstraint j).map .matrix

/-- Read a constraint. -/
def readConstraint [IntCast α] [Extended α] (j : Json α) : Option (Constraint α) := do
  let (tag, contents) ← readVariant j
  let form ← ofTag? formTag forms tag
  readConstraintOf form contents

/-! ## Linear forms and systems -/

/-- Write a list of numbers with its length, as one column. -/
def denseVectorForm [Extended α] (xs : List α) : Json α :=
  .array [list number xs, .count xs.length, .null]

/-- Read a list of numbers whose length must be the one written. -/
def readDenseVector [IntCast α] [Extended α] : Json α → Option (List α)
  | .array [values, size, .null] => do
    let xs ← readList readNumber values
    let n ← readCount maxWord64 size
    if xs.length = n then return xs else none
  | _ => none

/-- Write a dense matrix. -/
def denseMatrixForm [Extended α] (d : DenseMatrix α) : Json α :=
  .array [list number d.entries.toList, .count d.rows, .count d.cols]

/-- Read a dense matrix whose number of entries must fit its shape. -/
def readDenseMatrix [IntCast α] [Extended α] : Json α → Option (DenseMatrix α)
  | .array [values, rows, cols] => do
    let xs ← readList readNumber values
    let rows ← readCount maxWord64 rows
    let cols ← readCount maxWord64 cols
    if h : xs.toArray.size = rows * cols then return ⟨rows, cols, xs.toArray, h⟩ else none
  | _ => none

/-- Write a linear form. -/
def linearFormForm [Extended α] (f : LinearForm α) : Json α :=
  record [("coefficients", denseVectorForm f.coefficients), ("constant", number f.constant),
    ("variables", list variableForm f.ordering), ("sense", senseForm f.sense)]

/-- Read a linear form. -/
def readLinearForm [IntCast α] [Extended α] (j : Json α) : Option (LinearForm α) := do
  match ← readFields ["coefficients", "constant", "variables", "sense"] j with
  | [coefficients, constant, ordering, sense] =>
    return ⟨← readDenseVector coefficients, ← readNumber constant,
      ← readList readVariable ordering, ← readSense sense⟩
  | _ => none

/-- Write a linear system. -/
def linearSystemForm [Extended α] (s : LinearSystem α) : Json α :=
  record [("coefficients", denseMatrixForm s.coefficients),
    ("constants", denseVectorForm s.constants), ("variables", list variableForm s.ordering),
    ("sense", senseForm s.sense)]

/-- Read a linear system. -/
def readLinearSystem [IntCast α] [Extended α] (j : Json α) : Option (LinearSystem α) := do
  match ← readFields ["coefficients", "constants", "variables", "sense"] j with
  | [coefficients, constants, ordering, sense] =>
    return ⟨← readDenseMatrix coefficients, ← readDenseVector constants,
      ← readList readVariable ordering, ← readSense sense⟩
  | _ => none

end DecisionAlgebra.Serial
