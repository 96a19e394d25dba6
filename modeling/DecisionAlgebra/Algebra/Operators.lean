import DecisionAlgebra.Algebra.Product

/-!
# Operators on expressions

Every operator checks its operands, then compares their shapes, then combines elements. A scalar is
repeated over the other operand of a sum, a difference or a product; two expressions that are no
scalars are multiplied as matrices, a vector being a matrix of one column.
-/

namespace DecisionAlgebra.Expression

variable {α : Type}

/-- The elementwise sum. -/
def plus [One α] [Add α] (l r : Expression α) : Traced (Expression α) := do
  checkOperands .plus l r
  Grid.combine .plus (fun a b => some (a.plus b)) (.ofExpression l) (.ofExpression r)

/-- The elementwise sum of the left operand and the negated right one. -/
def minus [One α] [Add α] [Neg α] [Mul α] (l r : Expression α) : Traced (Expression α) := do
  checkOperands .minus l r
  let negated ← Traced.quiet (Attempt.read ((Grid.ofExpression r).mapM? Scalar.negated))
  Grid.combine .minus (fun a b => some (a.plus b)) (.ofExpression l) negated

/-! ## Products -/

/-- The entry `(i, j)` of a matrix product, simplified; `xs` are the elements of the left operand
with `inner` columns, `ys` those of the right one with `cols` columns. -/
def productAt? [Zero α] [One α] [Add α] [Mul α] [BEq α] (xs ys : Array (Scalar α))
    (inner cols i j : Nat) : Option (Scalar α) := do
  let terms ← (List.range inner).mapM fun k => do
    let a ← xs[i * inner + k]?
    let b ← ys[k * cols + j]?
    a.times b
  return (Scalar.sum terms).simplified

/-- All entries of a matrix product by rows. -/
def productElements? [Zero α] [One α] [Add α] [Mul α] [BEq α] (l r : Grid α) :
    Option (List (Scalar α)) := do
  let xs := l.elements.toArray
  let ys := r.elements.toArray
  let rows ← (List.range l.shape.rows).mapM fun i =>
    (List.range r.shape.cols).mapM fun j => productAt? xs ys l.shape.cols r.shape.cols i j
  return rows.flatten

/-- A product of one entry is a scalar and one of a single column is a vector. -/
def productForm (s : Shape) : Form :=
  if s.cols = 1 then if s.rows = 1 then .scalar else .vector else .matrix

/-- The matrix product of two grids. -/
def matrixProduct [Zero α] [One α] [Add α] [Mul α] [BEq α] (l r : Grid α) :
    Traced (Expression α) :=
  if l.shape.cols = r.shape.rows then
    Traced.quiet do
      let elements ← Attempt.read (productElements? l r)
      let shape : Shape := ⟨l.shape.rows, r.shape.cols⟩
      Attempt.checked (Grid.toExpression ⟨productForm shape, shape, elements⟩)
  else Grid.refuseShapes .multiply l r

/-- The product: elementwise when one operand is a scalar, else of matrices. -/
def multiply [Zero α] [One α] [Add α] [Mul α] [BEq α] (l r : Expression α) :
    Traced (Expression α) := do
  checkOperands .multiply l r
  if l.isScalar || r.isScalar then
    Grid.combine .multiply Scalar.times (.ofExpression l) (.ofExpression r)
  else matrixProduct (.ofExpression l) (.ofExpression r)

/-! ## Transposition -/

/-- Rows and columns exchanged. A scalar stays as it is and a vector becomes a matrix of one row. -/
def transposed : Expression α → Option (Expression α)
  | .scalar s => some (.scalar s)
  | .vector k c => some (.matrix k c.transposed)
  | .matrix k m => m.transposed.map (.matrix k)

/-- Check an expression and transpose it. -/
def transpose (e : Expression α) : Traced (Expression α) := do
  checkOperand .transpose .left e
  Traced.quiet (Attempt.read e.transposed)

end DecisionAlgebra.Expression
