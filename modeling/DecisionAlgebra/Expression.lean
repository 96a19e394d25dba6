import DecisionAlgebra.Matrix
import DecisionAlgebra.Scalar

/-!
# Expressions

An expression is a scalar, a column of entries of one kind, or a matrix of entries of one kind. The
three forms and four kinds make twelve types of expressions.
-/

namespace DecisionAlgebra

variable {α : Type}

/-- Entries are compared as values of their kind. -/
instance Kind.Entry.instBEq [BEq α] : (k : Kind) → BEq (k.Entry α)
  | .constant => inferInstanceAs (BEq α)
  | .variable => inferInstanceAs (BEq (Variable α))
  | .monomial => inferInstanceAs (BEq (Monomial α))
  | .polynomial => inferInstanceAs (BEq (Polynomial α))

/-- Whether an entry is well-formed. -/
def Kind.checkEntry (k : Kind) (x : k.Entry α) : Except Error Unit := (Scalar.ofEntry k x).check

/-- The occurring variables of the entries of a column, each once. -/
def Column.occurring (k : Kind) (c : Column (k.Entry α)) : List (Variable α) :=
  Variable.distinct (c.entries.flatMap fun x => (Scalar.ofEntry k x).occurring)

/-- The occurring variables of the entries of a matrix, each once. -/
def Matrix.occurring (k : Kind) (m : Matrix (k.Entry α)) : List (Variable α) :=
  Variable.distinct (m.entries.flatMap fun x => (Scalar.ofEntry k x).occurring)

/-- An expression of any form and kind. -/
inductive Expression (α : Type) where
  | scalar (s : Scalar α)
  | vector (k : Kind) (c : Column (k.Entry α))
  | matrix (k : Kind) (m : Matrix (k.Entry α))

namespace Expression

/-- The expression that is a number. -/
def constant (c : α) : Expression α := .scalar (.constant c)

/-- Equal types and equal entries. -/
protected def beq [BEq α] : Expression α → Expression α → Bool
  | .scalar a, .scalar b => a == b
  | .vector k c, .vector l d => if h : l = k then c == h ▸ d else false
  | .matrix k m, .matrix l n => if h : l = k then m == h ▸ n else false
  | _, _ => false

instance [BEq α] : BEq (Expression α) := ⟨Expression.beq⟩

/-! ## Reading an expression -/

/-- How the elements are held. -/
def form : Expression α → Form
  | .scalar _ => .scalar
  | .vector .. => .vector
  | .matrix .. => .matrix

/-- The kind of the elements. -/
def kind : Expression α → Kind
  | .scalar s => s.kind
  | .vector k _ => k
  | .matrix k _ => k

/-- The name of the type, made from form and kind. -/
def typeName (e : Expression α) : String := DecisionAlgebra.typeName e.form e.kind

/-- Rows and columns. -/
def dims : Expression α → Shape
  | .scalar _ => .scalar
  | .vector _ c => c.shape
  | .matrix _ m => m.shape

/-- Whether the form is that of a scalar. -/
def isScalar (e : Expression α) : Bool := e.form = .scalar

/-- Whether the expression is well-formed. -/
def check : Expression α → Except Error Unit
  | .scalar s => s.check
  | .vector k c => c.check k.checkEntry
  | .matrix k m => m.check k.checkEntry

/-- The scalar of an expression in scalar form. -/
def toScalar? : Expression α → Option (Scalar α)
  | .scalar s => some s
  | _ => none

/-- All elements by rows. -/
def elements : Expression α → List (Scalar α)
  | .scalar s => [s]
  | .vector k c => c.entries.map (Scalar.ofEntry k)
  | .matrix k m => m.entries.map (Scalar.ofEntry k)

/-- The element at a position; refused outside of the shape. -/
def at? (e : Expression α) (row col : Nat) : Outcome (Scalar α) :=
  if row < e.dims.rows ∧ col < e.dims.cols then
    Attempt.read e.elements[row * e.dims.cols + col]?
  else Attempt.refuse (.indexOutOfBounds row col e.dims)

/-- The occurring variables, each once. -/
def occurring (e : Expression α) : List (Variable α) :=
  Variable.distinct (e.elements.flatMap Scalar.occurring)

/-- The highest degree of an element. -/
def degree (e : Expression α) : UInt32 := (e.elements.map Scalar.degree).foldl max 0

/-- Whether every element is of degree at most one. -/
def isLinear (e : Expression α) : Bool := e.elements.all Scalar.isLinear

/-- The constant term of every element. -/
def constantTerms [Zero α] [Neg α] [Add α] (e : Expression α) : List α :=
  e.elements.map Scalar.constantTerm

/-! ## Narrowing -/

/-- The scalar of an expression; refused for other forms. -/
def asScalar (e : Expression α) : Except Error (Scalar α) :=
  match e with
  | .scalar s => .ok s
  | e => .error (.unsupportedInput .asScalar e.typeName)

/-- The expression itself when it is of the given type, else refused. -/
def narrow (form : Form) (kind : Kind) (e : Expression α) : Except Error (Expression α) :=
  if e.form = form ∧ e.kind = kind then .ok e
  else .error (.unsupportedInput (.asExpression form kind) e.typeName)

/-! ## Text -/

/-- An expression in running text; there is none for a matrix with too few entries. -/
def text [One α] [Neg α] [BEq α] [Numeral α] : Expression α → Option String
  | .scalar s => some s.text
  | .vector k c => some (c.text fun x => (Scalar.ofEntry k x).text)
  | .matrix k m => m.text fun x => (Scalar.ofEntry k x).text

end Expression

end DecisionAlgebra
