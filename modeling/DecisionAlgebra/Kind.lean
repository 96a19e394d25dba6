import DecisionAlgebra.Shape

/-!
# Kinds of scalar expressions

The four kinds run from the least to the most general, except that a constant cannot be kept as a
variable nor a variable as a constant: the two meet at the monomials.
-/

namespace DecisionAlgebra

/-- What a scalar expression is. -/
inductive Kind where
  | constant
  | variable
  | monomial
  | polynomial
  deriving DecidableEq, Repr

namespace Kind

/-- The word for a kind. -/
def name : Kind → String
  | .constant => "Constant"
  | .variable => "Variable"
  | .monomial => "Monomial"
  | .polynomial => "Polynomial"

/-- The place of a kind in the list from least to most general. -/
def rank : Kind → Nat
  | .constant => 0
  | .variable => 1
  | .monomial => 2
  | .polynomial => 3

/-- The least general kind that holds values of both kinds. -/
def join (a b : Kind) : Kind :=
  match a, b with
  | .constant, .variable => .monomial
  | .variable, .constant => .monomial
  | a, b => if a.rank ≤ b.rank then b else a

/-- The least general kind that holds values of every kind in the list; the constants when it is
empty. -/
def joinAll : List Kind → Kind
  | [] => .constant
  | k :: ks => ks.foldl join k

end Kind

/-- The type name of expressions of a form and kind. -/
def typeName (form : Form) (kind : Kind) : String :=
  match form with
  | .scalar => kind.name
  | .vector => kind.name ++ "Vector"
  | .matrix => kind.name ++ "Matrix"

end DecisionAlgebra
