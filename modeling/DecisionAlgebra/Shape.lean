/-!
# Shapes and forms

A shape counts rows and columns. A form tells scalars, vectors and matrices apart, whatever their
shape: a 1×1 matrix has the shape of a scalar and is none.
-/

namespace DecisionAlgebra

/-- Rows and columns. -/
structure Shape where
  rows : Nat
  cols : Nat
  deriving DecidableEq, Repr

namespace Shape

/-- The shape of a scalar. -/
def scalar : Shape := ⟨1, 1⟩

/-- The shape of a vector of `n` elements. -/
def column (n : Nat) : Shape := ⟨n, 1⟩

/-- Rows and columns exchanged. -/
def transposed (s : Shape) : Shape := ⟨s.cols, s.rows⟩

/-- Number of entries. -/
def size (s : Shape) : Nat := s.rows * s.cols

/-- Whether there are no entries. -/
def isEmpty (s : Shape) : Bool := s.size = 0

/-- Whether this is the shape of a scalar. -/
def isScalar (s : Shape) : Bool := s = scalar

/-- A shape in running text. -/
def text (s : Shape) : String := "(" ++ toString s.rows ++ ", " ++ toString s.cols ++ ")"

end Shape

/-- How an expression holds its elements. -/
inductive Form where
  | scalar
  | vector
  | matrix
  deriving DecidableEq, Repr

/-- The word for a form. -/
def Form.name : Form → String
  | .scalar => "scalar"
  | .vector => "vector"
  | .matrix => "matrix"

end DecisionAlgebra
