import DecisionAlgebra.Expression

/-!
# Grids

A grid is an expression with its type forgotten: form, shape and the elements as scalars of any
kinds. Operations work on grids, and `toExpression` gives the result the least general type that
holds all its elements.
-/

namespace DecisionAlgebra

/-- Elements by rows, with their form and shape. -/
structure Grid (α : Type) where
  form : Form
  shape : Shape
  elements : List (Scalar α)

namespace Grid

variable {α : Type}

/-- The elements of an expression. -/
def ofExpression (e : Expression α) : Grid α := ⟨e.form, e.dims, e.elements⟩

/-- The least general kind that holds every element. -/
def kind (g : Grid α) : Kind := Kind.joinAll (g.elements.map Scalar.kind)

/-- The typed expression with these elements, each lifted into the kind of the grid. -/
def toExpression [One α] (g : Grid α) : Except Error (Expression α) :=
  match g.form with
  | .scalar =>
    match g.elements with
    | s :: _ => .ok (.scalar s)
    | [] => .error (.indexOutOfBounds 0 0 g.shape)
  | .vector => do
    let entries ← g.elements.mapM (Scalar.toEntry g.kind)
    return .vector g.kind ⟨entries⟩
  | .matrix => do
    let entries ← g.elements.mapM (Scalar.toEntry g.kind)
    return .matrix g.kind ⟨g.shape.rows, g.shape.cols, entries⟩

/-- Apply a function to every element. -/
def map (f : Scalar α → Scalar α) (g : Grid α) : Grid α := { g with elements := g.elements.map f }

/-- Apply a function that may fail to every element. -/
def mapM? (f : Scalar α → Option (Scalar α)) (g : Grid α) : Option (Grid α) := do
  let elements ← g.elements.mapM f
  return { g with elements }

/-! ## Broadcasting -/

/-- The element at a place among those of an expression of a form; a scalar has its one element
everywhere. -/
def broadcast? (form : Form) (xs : Array (Scalar α)) (i : Nat) : Option (Scalar α) :=
  if form = .scalar then xs[0]? else xs[i]?

/-- The elements of two grids at the first `n` places, pairwise; there are none when one of the
grids ends before. -/
def pairs? (l r : Grid α) (n : Nat) : Option (List (Scalar α × Scalar α)) := do
  let xs := l.elements.toArray
  let ys := r.elements.toArray
  (List.range n).mapM fun i => do
    let a ← broadcast? l.form xs i
    let b ← broadcast? r.form ys i
    return (a, b)

/-- The error for shapes that do not fit, which depends on the forms. -/
def mismatch (op : Operation) (l r : Grid α) : Error :=
  match l.form, r.form with
  | .vector, .vector => .vectorShapeMismatch op l.shape r.shape
  | .matrix, .matrix => .matrixShapeMismatch op l.shape r.shape
  | _, _ => .shapeMismatch op l.shape r.shape

/-- Refuse two grids whose shapes do not fit, and tell. -/
def refuseShapes {β : Type} (op : Operation) (l r : Grid α) : Traced β := do
  Traced.emit (.shapeMismatch op l.shape r.shape)
  Traced.refuse (mismatch op l r)

/-- Form and shape of an elementwise result. A scalar fits everything; otherwise the shapes must be
equal, and one vector is enough to make the result a vector. -/
def layout (op : Operation) (l r : Grid α) : Traced (Form × Shape) :=
  match l.form, r.form with
  | .scalar, .scalar => pure (.scalar, .scalar)
  | .scalar, form => pure (form, r.shape)
  | form, .scalar => pure (form, l.shape)
  | lf, rf =>
    if l.shape = r.shape then
      pure (if lf = .vector ∨ rf = .vector then .vector else .matrix, l.shape)
    else refuseShapes op l r

/-- Combine two grids element by element. -/
def combine [One α] (op : Operation) (f : Scalar α → Scalar α → Option (Scalar α)) (l r : Grid α) :
    Traced (Expression α) := do
  let (form, shape) ← layout op l r
  Traced.quiet do
    let ps ← Attempt.read (l.pairs? r shape.size)
    let elements ← Attempt.read (ps.mapM fun p => f p.1 p.2)
    Attempt.checked (toExpression ⟨form, shape, elements⟩)

end Grid

/-! ## Operands -/

namespace Expression

variable {α : Type}

/-- Check an operand of an operation; a refused one is told. -/
def checkOperand (op : Operation) (side : Side) (e : Expression α) : Traced Unit :=
  match e.check with
  | .ok () => pure ()
  | .error source => do
    Traced.emit (.invalidOperand op side source.code)
    Traced.refuse (.invalidOperand op side source)

/-- Check both operands of an operation, the left one first. -/
def checkOperands (op : Operation) (l r : Expression α) : Traced Unit := do
  checkOperand op .left l
  checkOperand op .right r

end Expression

end DecisionAlgebra
