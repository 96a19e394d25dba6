import DecisionAlgebra.Polynomial

/-!
# Scalar expressions

A scalar expression is a constant, a variable, a monomial or a polynomial. All four are read as a
list of monomials; which of the four it is decides what is printed and how results are typed.
-/

namespace DecisionAlgebra

/-- The type of the values of a kind. -/
@[reducible] def Kind.Entry (α : Type) : Kind → Type
  | .constant => α
  | .variable => Variable α
  | .monomial => Monomial α
  | .polynomial => Polynomial α

/-- A value of one of the four kinds. -/
inductive Scalar (α : Type) where
  | constant (c : α)
  | variable (v : Variable α)
  | monomial (m : Monomial α)
  | polynomial (p : Polynomial α)

namespace Scalar

variable {α : Type}

/-- Equal kinds and equal values. -/
instance [BEq α] : BEq (Scalar α) where
  beq
    | .constant a, .constant b => a == b
    | .variable v, .variable w => v == w
    | .monomial a, .monomial b => a == b
    | .polynomial p, .polynomial q => p == q
    | _, _ => false

/-! ## Reading a scalar -/

/-- Which of the four kinds. -/
def kind : Scalar α → Kind
  | .constant _ => .constant
  | .variable _ => .variable
  | .monomial _ => .monomial
  | .polynomial _ => .polynomial

/-- Whether the value is well-formed; a constant always is. -/
def check : Scalar α → Except Error Unit
  | .constant _ => .ok ()
  | .variable v => Monomial.checkVariable v
  | .monomial m => m.check
  | .polynomial p => p.check

/-- The monomials that the scalar is the sum of. -/
def toMonomials [One α] : Scalar α → List (Monomial α)
  | .constant c => [Monomial.constant c]
  | .variable v => [Monomial.term v 1]
  | .monomial m => [m]
  | .polynomial p => p.monomials

/-- The scalar as one monomial; a polynomial is none, whatever its length. -/
def asMonomial [One α] : Scalar α → Option (Monomial α)
  | .constant c => some (Monomial.constant c)
  | .variable v => some (Monomial.term v 1)
  | .monomial m => some m
  | .polynomial _ => none

/-- The scalar as one monomial, where a polynomial of a single term counts as that term. -/
def asSingleMonomial [One α] (s : Scalar α) : Option (Monomial α) :=
  match s.toMonomials with
  | [m] => some m
  | _ => none

/-- The scalar as a polynomial. -/
def toPolynomial [One α] (s : Scalar α) : Polynomial α := ⟨s.toMonomials⟩

/-- The occurring variables, each once. -/
def occurring : Scalar α → List (Variable α)
  | .constant _ => []
  | .variable v => [v]
  | .monomial m => m.occurring
  | .polynomial p => p.occurring

/-- The highest degree of a monomial. -/
def degree : Scalar α → UInt32
  | .constant _ => 0
  | .variable _ => 1
  | .monomial m => m.degree
  | .polynomial p => p.degree

/-- Whether the degree is at most one. -/
def isLinear (s : Scalar α) : Bool := s.degree ≤ 1

/-- The constant term. -/
def constantTerm [Zero α] [Neg α] [Add α] : Scalar α → α
  | .constant c => c
  | .variable _ => 0
  | .monomial m => if m.degree = 0 then m.coefficient else 0
  | .polynomial p => p.constant

/-! ## Between kinds -/

/-- A value of a kind as a scalar. -/
def ofEntry : (k : Kind) → k.Entry α → Scalar α
  | .constant, c => .constant c
  | .variable, v => .variable v
  | .monomial, m => .monomial m
  | .polynomial, p => .polynomial p

/-- Lift into a more general kind. Where the kind cannot hold the value it is left as it is. -/
def promote [One α] (s : Scalar α) : Kind → Scalar α
  | .polynomial => .polynomial s.toPolynomial
  | .monomial =>
    match s with
    | .constant c => .monomial (Monomial.constant c)
    | .variable v => .monomial (Monomial.term v 1)
    | s => s
  | _ => s

/-- The value of a scalar that is of the kind already. -/
def ofKind? : (k : Kind) → Scalar α → Option (k.Entry α)
  | .constant, .constant c => some c
  | .variable, .variable v => some v
  | .monomial, .monomial m => some m
  | .polynomial, .polynomial p => some p
  | _, _ => none

/-- The value of a scalar lifted into a kind; refused when the kind cannot hold it. -/
def toEntry [One α] (k : Kind) (s : Scalar α) : Except Error (k.Entry α) :=
  match ofKind? k (s.promote k) with
  | some x => .ok x
  | none => .error (.unsupportedInput .promotion (s.promote k).kind.name)

/-- Like terms combined, within the kind. -/
def simplified [Zero α] [Add α] [BEq α] : Scalar α → Scalar α
  | .monomial m => .monomial m.normalized
  | .polynomial p => .polynomial p.simplified
  | s => s

/-! ## Text -/

/-- A scalar in running text. -/
def text [One α] [Neg α] [BEq α] [Numeral α] : Scalar α → String
  | .constant c => numeral c
  | .variable v => v.text
  | .monomial m => m.text
  | .polynomial p => p.text

end Scalar

end DecisionAlgebra
