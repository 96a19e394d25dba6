import DecisionAlgebra.Kind
import DecisionAlgebra.Sense
import DecisionAlgebra.Variable

/-!
# Why an operation refuses its input

An error is a cause with the facts that belong to it. Its code and its wording are functions of the
cause, so they are fixed here and nowhere else.
-/

namespace DecisionAlgebra

/-- Which operand of an operation, or which side of a constraint. -/
inductive Side where
  | left
  | right
  deriving DecidableEq, Repr

/-- The word for a side. -/
def Side.name : Side → String
  | .left => "left"
  | .right => "right"

/-- The operations that check their operands. -/
inductive Operation where
  | plus
  | minus
  | multiply
  | transpose
  | comparison
  | derivative
  | substitute
  | power
  | implies
  deriving DecidableEq, Repr

/-- The word for an operation. -/
def Operation.name : Operation → String
  | .plus => "plus"
  | .minus => "minus"
  | .multiply => "multiply"
  | .transpose => "transpose"
  | .comparison => "comparison"
  | .derivative => "derivative"
  | .substitute => "substitute"
  | .power => "power"
  | .implies => "implies"

/-- What accepts only some types of input: a conversion to a narrower type, or an operation on
scalars. -/
inductive Selective where
  | promotion
  | substitution
  | power
  | comparison
  | asScalar
  | asExpression (form : Form) (kind : Kind)
  | asConstraint (form : Form)
  deriving DecidableEq, Repr

/-- The name under which a selective function reports itself. -/
def Selective.name : Selective → String
  | promotion => "promote"
  | substitution => "substitute"
  | power => "power"
  | comparison => "comparison"
  | asScalar => "ScalarExpr::try_from"
  | asExpression form kind => typeName form kind ++ "::try_from"
  | asConstraint .scalar => "ScalarConstraint::try_from"
  | asConstraint .vector => "VectorConstraint::try_from"
  | asConstraint .matrix => "MatrixConstraint::try_from"

/-- The causes for which an operation refuses its input. -/
inductive Error where
  /-- A variable that no environment has made. -/
  | undefinedVariable
  /-- A monomial with different numbers of exponents and variables. -/
  | degreeMismatch (degrees vars : Nat)
  | emptyPolynomial
  | emptyVector
  | emptyMatrix
  /-- A matrix row that is not as long as it should be. -/
  | raggedRow (row expected actual : Nat)
  /-- Operands of different forms whose shapes do not fit. -/
  | shapeMismatch (operation : Operation) (left right : Shape)
  /-- Two vectors whose shapes do not fit. -/
  | vectorShapeMismatch (operation : Operation) (left right : Shape)
  /-- Two matrices whose shapes do not fit. -/
  | matrixShapeMismatch (operation : Operation) (left right : Shape)
  /-- A position outside of a shape. -/
  | indexOutOfBounds (row col : Nat) (shape : Shape)
  /-- A type of input that is not accepted. -/
  | unsupportedInput (function : Selective) (input : String)
  | negativeExponent (exponent : Int)
  /-- An expression, or a side of a constraint, of degree above one. -/
  | notLinear (side : Option Side) (expression : String)
  | equalityRequired (sense : Sense)
  | inequalityRequired (sense : Sense)
  /-- Coefficients of a constant, with no ordering of variables to read them by. -/
  | noOrdering
  /-- A variable that the given ordering leaves out. -/
  | notInOrdering (v : VariableId)
  /-- A variable that the point gives no value to. -/
  | unassigned (v : VariableId)
  /-- A constraint on none or on several variables, where implication wants exactly one. -/
  | notSingleVariable (count : Nat)
  /-- Two constraints on different variables. -/
  | differentVariables (left right : VariableId)
  /-- An operand that fails its check, with the error of the check. -/
  | invalidOperand (operation : Operation) (side : Side) (source : Error)
  deriving DecidableEq, Repr

namespace Error

/-- The code of a cause. -/
def code : Error → String
  | undefinedVariable => "VARIABLE_UNDEFINED"
  | degreeMismatch .. => "MONOMIAL_DEGREE_MISMATCH"
  | emptyPolynomial => "POLYNOMIAL_EMPTY"
  | emptyVector => "VECTOR_EMPTY"
  | emptyMatrix => "MATRIX_EMPTY"
  | raggedRow .. => "MATRIX_RAGGED_ROW"
  | shapeMismatch .. => "SHAPE_MISMATCH"
  | vectorShapeMismatch .. => "VECTOR_SHAPE_MISMATCH"
  | matrixShapeMismatch .. => "MATRIX_SHAPE_MISMATCH"
  | indexOutOfBounds .. => "INDEX_OUT_OF_BOUNDS"
  | unsupportedInput .. => "INPUT_UNSUPPORTED"
  | negativeExponent _ => "EXPONENT_NEGATIVE"
  | notLinear .. => "LINEAR_EXPRESSION_REQUIRED"
  | equalityRequired _ => "CONSTRAINT_EQUALITY_REQUIRED"
  | inequalityRequired _ => "CONSTRAINT_INEQUALITY_REQUIRED"
  | noOrdering => "LINEAR_COEFFICIENTS_UNAVAILABLE"
  | notInOrdering _ => "VARIABLE_NOT_IN_ORDERING"
  | unassigned _ => "VARIABLE_UNASSIGNED"
  | notSingleVariable _ => "IMPLICATION_SINGLE_VARIABLE_REQUIRED"
  | differentVariables .. => "IMPLICATION_VARIABLE_MISMATCH"
  | invalidOperand .. => "OPERAND_INVALID"

/-- The innermost cause, looked for through invalid operands. -/
def rootCause : Error → Error
  | invalidOperand _ _ source => source.rootCause
  | e => e

/-- The operation and the two shapes of a shape mismatch of any kind. -/
def mismatchedShapes : Error → Option (Operation × Shape × Shape)
  | shapeMismatch op l r => some (op, l, r)
  | vectorShapeMismatch op l r => some (op, l, r)
  | matrixShapeMismatch op l r => some (op, l, r)
  | _ => none

/-- The two shapes of a mismatch in running text. -/
def shapesText (l r : Shape) : String := l.text ++ " and " ++ r.text

/-- The full text of an error: its code in brackets, then the wording of the cause. -/
def message (e : Error) : String :=
  "[" ++ e.code ++ "] " ++
    match e with
    | undefinedVariable => "Variable is not well-defined; create it through an Environment"
    | degreeMismatch degrees vars =>
      s!"the number of degrees ({degrees}) does not match the number of variables ({vars})"
    | emptyPolynomial => "Polynomial has no monomials"
    | emptyVector => "Vector has no elements"
    | emptyMatrix => "Matrix has no elements"
    | raggedRow row expected actual =>
      s!"Row {row} has {actual} columns; expected {expected}"
    | shapeMismatch op l r => "Cannot " ++ op.name ++ " expressions of shape " ++ shapesText l r
    | vectorShapeMismatch op l r => "Cannot " ++ op.name ++ " vectors of shape " ++ shapesText l r
    | matrixShapeMismatch op l r => "Cannot " ++ op.name ++ " matrices of shape " ++ shapesText l r
    | indexOutOfBounds row col shape =>
      s!"Index ({row}, {col}) is outside of shape " ++ shape.text
    | unsupportedInput function input =>
      function.name ++ " does not accept input of type " ++ input
    | negativeExponent exponent => s!"Exponent must be non-negative (got {exponent})"
    | notLinear (some side) expression =>
      "The " ++ side.name ++ " side of the constraint is not linear: " ++ expression
    | notLinear none expression => "Expression is not linear: " ++ expression
    | equalityRequired sense =>
      "Expected an equality constraint (got sense " ++ sense.symbol ++ ")"
    | inequalityRequired sense =>
      "Expected an inequality constraint (got sense " ++ sense.symbol ++ ")"
    | noOrdering => "Constant expression has no variables; supply a variable ordering"
    | notInOrdering v => "Variable x_" ++ v.text ++ " is missing from the variable ordering"
    | unassigned v => "No value assigned to variable x_" ++ v.text
    | notSingleVariable count =>
      s!"Implication needs constraints on exactly one variable (found {count})"
    | differentVariables l r =>
      "Implication compares constraints on different variables (x_" ++ l.text ++ " and x_" ++
        r.text ++ ")"
    | invalidOperand op side source =>
      "The " ++ side.name ++ " operand of " ++ op.name ++ " is invalid: " ++ source.message

end Error

end DecisionAlgebra
