import DecisionAlgebra.Expression
import DecisionAlgebra.Serial.Field

/-!
# Serial forms of expressions

Expressions are written as they are stored, well-formed or not, and read back the same. Bounds are
the exception to the rule for numbers: one that is not finite is written as null, and a null is read
as no bound.
-/

namespace DecisionAlgebra.Serial

variable {α : Type}

/-! ## Variables -/

/-- The tag of a domain. -/
def domainTag : Domain → String
  | .continuous => "Continuous"
  | .binary => "Binary"
  | .integer => "Integer"

/-- All domains. -/
def domains : List Domain := [.continuous, .binary, .integer]

/-- Read an identifier. -/
def readVariableId (j : Json α) : Option VariableId := (readCount maxWord32 j).map VariableId.mk

/-- Read a bound; null is the given value for no bound. -/
def readBound [IntCast α] [Extended α] (unbounded : α) : Json α → Option α
  | .null => some unbounded
  | j => readNumber j

/-- Write a variable. -/
def variableForm [Extended α] (v : Variable α) : Json α :=
  record [("id", .count v.id.index), ("kind", .string (domainTag v.domain)),
    ("lower", number v.lower), ("upper", number v.upper)]

/-- Read a variable. -/
def readVariable [IntCast α] [Extended α] (j : Json α) : Option (Variable α) := do
  match ← readFields ["id", "kind", "lower", "upper"] j with
  | [id, kind, lower, upper] =>
    return ⟨← readVariableId id, ← readTag domainTag domains kind,
      ← readBound Extended.negInfinity lower, ← readBound Extended.infinity upper⟩
  | _ => none

/-! ## Scalars -/

/-- Write an exponent. -/
def wordForm (e : UInt32) : Json α := .count e.toNat

/-- Read an exponent. -/
def readWord (j : Json α) : Option UInt32 := (readCount maxWord32 j).map UInt32.ofNat

/-- Write a monomial. -/
def monomialForm [Extended α] (m : Monomial α) : Json α :=
  record [("coefficient", number m.coefficient), ("variables", list variableForm m.vars),
    ("exponents", list wordForm m.exponents)]

/-- Read a monomial. -/
def readMonomial [IntCast α] [Extended α] (j : Json α) : Option (Monomial α) := do
  match ← readFields ["coefficient", "variables", "exponents"] j with
  | [coefficient, vars, exponents] =>
    return ⟨← readNumber coefficient, ← readList readVariable vars,
      ← readList readWord exponents⟩
  | _ => none

/-- Write a polynomial. -/
def polynomialForm [Extended α] (p : Polynomial α) : Json α :=
  record [("monomials", list monomialForm p.monomials)]

/-- Read a polynomial. -/
def readPolynomial [IntCast α] [Extended α] (j : Json α) : Option (Polynomial α) := do
  match ← readFields ["monomials"] j with
  | [monomials] => return ⟨← readList readMonomial monomials⟩
  | _ => none

/-- Write an entry of a kind. -/
def entryForm [Extended α] : (k : Kind) → k.Entry α → Json α
  | .constant, c => number c
  | .variable, v => variableForm v
  | .monomial, m => monomialForm m
  | .polynomial, p => polynomialForm p

/-- Read an entry of a kind. -/
def readEntry [IntCast α] [Extended α] : (k : Kind) → Json α → Option (k.Entry α)
  | .constant, j => readNumber j
  | .variable, j => readVariable j
  | .monomial, j => readMonomial j
  | .polynomial, j => readPolynomial j

/-- All kinds. -/
def kinds : List Kind := [.constant, .variable, .monomial, .polynomial]

/-- Write a scalar under the name of its kind. -/
def scalarForm [Extended α] : Scalar α → Json α
  | .constant c => variant Kind.constant.name (number c)
  | .variable v => variant Kind.variable.name (variableForm v)
  | .monomial m => variant Kind.monomial.name (monomialForm m)
  | .polynomial p => variant Kind.polynomial.name (polynomialForm p)

/-- Read a scalar. -/
def readScalar [IntCast α] [Extended α] (j : Json α) : Option (Scalar α) := do
  let (tag, contents) ← readVariant j
  let k ← ofTag? Kind.name kinds tag
  return Scalar.ofEntry k (← readEntry k contents)

/-! ## Columns, matrices and expressions -/

/-- Write a column as the list of its entries. -/
def columnForm [Extended α] (k : Kind) (c : Column (k.Entry α)) : Json α :=
  list (entryForm k) c.entries

/-- Read a column. -/
def readColumn [IntCast α] [Extended α] (k : Kind) (j : Json α) : Option (Column (k.Entry α)) := do
  return ⟨← readList (readEntry k) j⟩

/-- Write a matrix. -/
def matrixForm [Extended α] (k : Kind) (m : Matrix (k.Entry α)) : Json α :=
  record [("rows", .count m.rows), ("cols", .count m.cols), ("data", list (entryForm k) m.entries)]

/-- Read a matrix. The number of its entries is not compared with its shape. -/
def readMatrix [IntCast α] [Extended α] (k : Kind) (j : Json α) : Option (Matrix (k.Entry α)) := do
  match ← readFields ["rows", "cols", "data"] j with
  | [rows, cols, data] =>
    return ⟨← readCount maxWord64 rows, ← readCount maxWord64 cols, ← readList (readEntry k) data⟩
  | _ => none

/-- The twelve types of expressions. -/
def types : List (Form × Kind) :=
  [Form.scalar, Form.vector, Form.matrix].flatMap fun form => kinds.map fun kind => (form, kind)

/-- The name of a type of expressions. -/
def typeTag (t : Form × Kind) : String := typeName t.1 t.2

/-- Write an expression under the name of its type. -/
def expressionForm [Extended α] : Expression α → Json α
  | .scalar s => scalarForm s
  | .vector k c => variant (typeName .vector k) (columnForm k c)
  | .matrix k m => variant (typeName .matrix k) (matrixForm k m)

/-- Read the contents of an expression of a type. -/
def readExpressionOf [IntCast α] [Extended α] (t : Form × Kind) (j : Json α) :
    Option (Expression α) :=
  match t with
  | (.scalar, k) => (readEntry k j).map fun x => .scalar (Scalar.ofEntry k x)
  | (.vector, k) => (readColumn k j).map (.vector k)
  | (.matrix, k) => (readMatrix k j).map (.matrix k)

/-- Read an expression. -/
def readExpression [IntCast α] [Extended α] (j : Json α) : Option (Expression α) := do
  let (tag, contents) ← readVariant j
  let t ← ofTag? typeTag types tag
  readExpressionOf t contents

end DecisionAlgebra.Serial
