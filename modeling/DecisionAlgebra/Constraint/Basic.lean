import DecisionAlgebra.Calculus.Evaluation

/-!
# Constraints

A constraint relates two scalars, or two expressions over a recorded shape element by element, where
a scalar side is repeated. The recorded shape need not fit the sides: `check` finds that.
-/

namespace DecisionAlgebra

variable {α : Type}

/-- Two scalars and a sense. -/
structure ScalarConstraint (α : Type) where
  left : Scalar α
  sense : Sense
  right : Scalar α

/-- Two expressions, a sense, and the shape over which they are compared. -/
structure GridConstraint (α : Type) where
  left : Expression α
  right : Expression α
  sense : Sense
  shape : Shape

/-- A constraint between scalars, or element by element over a vector or a matrix. -/
inductive Constraint (α : Type) where
  | scalar (c : ScalarConstraint α)
  | vector (c : GridConstraint α)
  | matrix (c : GridConstraint α)

/-! ## Between scalars -/

namespace ScalarConstraint

instance [BEq α] : BEq (ScalarConstraint α) :=
  ⟨fun a b => a.left == b.left && a.right == b.right && a.sense == b.sense⟩

/-- Both sides valid, the left one first. -/
def check (c : ScalarConstraint α) : Except Error Unit := do
  c.left.check
  c.right.check

/-- The occurring variables of the left side, then those only on the right. -/
def occurring (c : ScalarConstraint α) : List (Variable α) :=
  Variable.distinct (c.left.occurring ++ c.right.occurring)

/-- Whether both sides are of degree at most one. -/
def isLinear (c : ScalarConstraint α) : Bool := c.left.isLinear && c.right.isLinear

/-- Whether the relation holds at a point. -/
def evaluate [Zero α] [One α] [Add α] [Neg α] [Mul α] [LE α] [DecidableLE α] [BEq α]
    (c : ScalarConstraint α) (p : Point α) : Except Error Bool := do
  c.check
  let l ← c.left.evaluate p
  let r ← c.right.evaluate p
  return c.sense.holds l r

/-- A constraint in running text. -/
def text [One α] [Neg α] [BEq α] [Numeral α] (c : ScalarConstraint α) : String :=
  c.left.text ++ " " ++ c.sense.symbol ++ " " ++ c.right.text

end ScalarConstraint

/-! ## Element by element -/

namespace GridConstraint

instance [BEq α] : BEq (GridConstraint α) :=
  ⟨fun a b => a.left == b.left && a.right == b.right && a.sense == b.sense && a.shape == b.shape⟩

/-- Whether a side is a scalar or has exactly the recorded shape. -/
def fits (c : GridConstraint α) (side : Expression α) : Bool :=
  side.isScalar || side.dims = c.shape

/-- The two shapes to report when a side does not fit: the sides' own when they differ, else the
left one and the recorded one. -/
def misfit (c : GridConstraint α) : Shape × Shape :=
  if c.left.dims = c.right.dims then (c.left.dims, c.shape) else (c.left.dims, c.right.dims)

/-- Both sides valid and fitting the recorded shape; `mismatch` makes the error of two shapes. -/
def check (mismatch : Shape → Shape → Error) (c : GridConstraint α) : Except Error Unit := do
  c.left.check
  c.right.check
  if c.fits c.left && c.fits c.right then return ()
  else throw (mismatch c.misfit.1 c.misfit.2)

/-- The elements of the sides over the recorded shape, each pair a constraint of its own; there are
none when a side ends before. -/
def constraints? (c : GridConstraint α) : Option (List (ScalarConstraint α)) := do
  let ps ← Grid.pairs? (.ofExpression c.left) (.ofExpression c.right) c.shape.size
  return ps.map fun p => ⟨p.1, c.sense, p.2⟩

/-- The element of a side at a position, which for a scalar is always itself. -/
def sideAt (side : Expression α) (row col : Nat) : Outcome (Scalar α) :=
  if side.isScalar then side.at? 0 0 else side.at? row col

/-- The constraint at a position; refused outside of the recorded shape. -/
def at? (c : GridConstraint α) (row col : Nat) : Outcome (ScalarConstraint α) :=
  if row < c.shape.rows ∧ col < c.shape.cols then do
    let l ← sideAt c.left row col
    let r ← sideAt c.right row col
    return ⟨l, c.sense, r⟩
  else Attempt.refuse (.indexOutOfBounds row col c.shape)

/-- How many constraints one over a vector says it is: the rows of the recorded shape. -/
def length (c : GridConstraint α) : Nat := c.shape.rows

/-- Whether the recorded shape has no rows. -/
def isEmpty (c : GridConstraint α) : Bool := c.length = 0

/-- The constraint at an index of a vector, which is sought in the first column. -/
def atIndex (c : GridConstraint α) (index : Nat) : Outcome (ScalarConstraint α) := c.at? index 0

/-- The occurring variables of the left side, then those only on the right. -/
def occurring (c : GridConstraint α) : List (Variable α) :=
  Variable.distinct (c.left.occurring ++ c.right.occurring)

/-- Whether both sides are of degree at most one. -/
def isLinear (c : GridConstraint α) : Bool := c.left.isLinear && c.right.isLinear

/-- A constraint in running text; there is none when a side has none. -/
def text [One α] [Neg α] [BEq α] [Numeral α] (c : GridConstraint α) : Option String := do
  let l ← c.left.text
  let r ← c.right.text
  return l ++ " " ++ c.sense.symbol ++ " " ++ r

end GridConstraint

/-! ## Of any form -/

namespace Constraint

instance [BEq α] : BEq (Constraint α) where
  beq
    | .scalar a, .scalar b => a == b
    | .vector a, .vector b => a == b
    | .matrix a, .matrix b => a == b
    | _, _ => false

/-- Between scalars, or over a vector or a matrix. -/
def form : Constraint α → Form
  | .scalar _ => .scalar
  | .vector _ => .vector
  | .matrix _ => .matrix

/-- The shape over which the sides are compared. -/
def shape : Constraint α → Shape
  | .scalar _ => .scalar
  | .vector c => c.shape
  | .matrix c => c.shape

/-- The relation between the sides. -/
def sense : Constraint α → Sense
  | .scalar c => c.sense
  | .vector c => c.sense
  | .matrix c => c.sense

/-- Whether the sides are valid and fit the recorded shape. -/
def check : Constraint α → Except Error Unit
  | .scalar c => c.check
  | .vector c => c.check (.vectorShapeMismatch .comparison)
  | .matrix c => c.check (.matrixShapeMismatch .comparison)

/-- The occurring variables of the left side, then those only on the right. -/
def occurring : Constraint α → List (Variable α)
  | .scalar c => c.occurring
  | .vector c => c.occurring
  | .matrix c => c.occurring

/-- Whether both sides are of degree at most one. -/
def isLinear : Constraint α → Bool
  | .scalar c => c.isLinear
  | .vector c => c.isLinear
  | .matrix c => c.isLinear

/-- The left side. -/
def left : Constraint α → Expression α
  | .scalar c => .scalar c.left
  | .vector c => c.left
  | .matrix c => c.left

/-- The right side. -/
def right : Constraint α → Expression α
  | .scalar c => .scalar c.right
  | .vector c => c.right
  | .matrix c => c.right

/-- The constraints between elements, by rows. -/
def constraints? : Constraint α → Option (List (ScalarConstraint α))
  | .scalar c => some [c]
  | .vector c => c.constraints?
  | .matrix c => c.constraints?

/-- The constraint itself when it is of the given form, else refused. -/
def narrow (form : Form) (c : Constraint α) : Except Error (Constraint α) :=
  if c.form = form then .ok c
  else .error (.unsupportedInput (.asConstraint form) (c.form.name ++ " constraint"))

/-- The constraint between scalars; refused for other forms. -/
def asScalar (c : Constraint α) : Except Error (ScalarConstraint α) :=
  match c with
  | .scalar c => .ok c
  | c => .error (.unsupportedInput (.asConstraint .scalar) (c.form.name ++ " constraint"))

/-- A constraint in running text. -/
def text [One α] [Neg α] [BEq α] [Numeral α] : Constraint α → Option String
  | .scalar c => some c.text
  | .vector c => c.text
  | .matrix c => c.text

/-! ## Truth at a point -/

/-- Check a constraint and evaluate every constraint between elements. -/
def evaluate [Zero α] [One α] [Add α] [Neg α] [Mul α] [LE α] [DecidableLE α] [BEq α]
    (c : Constraint α) (p : Point α) : Outcome (List Bool) := do
  Attempt.checked c.check
  let cs ← Attempt.read c.constraints?
  Attempt.checked (cs.mapM (·.evaluate p))

/-- Whether all of a list of constraints hold, found out in order up to the first that does not. -/
def allHold [Zero α] [One α] [Add α] [Neg α] [Mul α] [LE α] [DecidableLE α] [BEq α]
    (p : Point α) : List (ScalarConstraint α) → Except Error Bool
  | [] => .ok true
  | c :: cs => do
    if ← c.evaluate p then allHold p cs else return false

/-- Whether every constraint between elements holds at a point. The constraint itself is not
checked. -/
def isSatisfied [Zero α] [One α] [Add α] [Neg α] [Mul α] [LE α] [DecidableLE α] [BEq α]
    (c : Constraint α) (p : Point α) : Outcome Bool := do
  let cs ← Attempt.read c.constraints?
  Attempt.checked (allHold p cs)

end Constraint

end DecisionAlgebra
