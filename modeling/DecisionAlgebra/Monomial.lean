import DecisionAlgebra.Error
import DecisionAlgebra.Number.Numeral

/-!
# Monomials

A monomial is a coefficient times a product of variable powers, kept as two parallel lists. A
variable may occur more than once and an exponent may be zero; what a monomial stands for is given
by its signature, the total exponent of each variable. Exponents are 32-bit words, and wherever they
are added the sum wraps around. Lists of different lengths can be built and are found by `check`.
-/

namespace DecisionAlgebra

/-- `coefficient * x₁ ^ e₁ * x₂ ^ e₂ * …`. -/
structure Monomial (α : Type) where
  coefficient : α
  vars : List (Variable α)
  exponents : List UInt32

namespace Monomial

variable {α : Type}

/-- A monomial without factors. -/
def constant (c : α) : Monomial α := ⟨c, [], []⟩

/-- A coefficient times one variable. -/
def term (v : Variable α) (c : α) : Monomial α := ⟨c, [v], [1]⟩

/-- Each variable with its exponent, as far as both lists reach. -/
def factors (m : Monomial α) : List (Variable α × UInt32) := m.vars.zip m.exponents

/-- The monomial with the given coefficient and factors. -/
def ofFactors (c : α) (fs : List (Variable α × UInt32)) : Monomial α :=
  ⟨c, fs.map (·.1), fs.map (·.2)⟩

/-- Coefficients are compared as numbers, variables by identifier. -/
instance [BEq α] : BEq (Monomial α) :=
  ⟨fun a b => a.coefficient == b.coefficient && a.vars == b.vars &&
    a.exponents == b.exponents⟩

/-! ## Reading a monomial -/

/-- A variable must have been made by an environment. -/
def checkVariable (v : Variable α) : Except Error Unit :=
  if v.id.isDefined then .ok () else .error .undefinedVariable

/-- As many exponents as variables, and every variable valid. -/
def check (m : Monomial α) : Except Error Unit :=
  if m.exponents.length = m.vars.length then m.vars.forM checkVariable
  else .error (.degreeMismatch m.exponents.length m.vars.length)

/-- The sum of the exponents. -/
def degree (m : Monomial α) : UInt32 := m.exponents.foldr (· + ·) 0

/-- Whether there are no factors at all. -/
def isConstant (m : Monomial α) : Bool := m.vars.isEmpty && m.exponents.isEmpty

/-- Whether the degree is at most one. -/
def isLinear (m : Monomial α) : Bool := m.degree ≤ 1

/-- The variables with a positive exponent, each once. -/
def occurring (m : Monomial α) : List (Variable α) :=
  Variable.distinct ((m.factors.filter (0 < ·.2)).map (·.1))

/-- The total exponent of a variable. -/
def exponentOf (m : Monomial α) (v : Variable α) : UInt32 :=
  ((m.factors.filter (·.1 == v)).map (·.2)).foldr (· + ·) 0

/-- Whether a variable has a positive total exponent. -/
def contains (m : Monomial α) (v : Variable α) : Bool := 0 < m.exponentOf v

/-- The variable of a monomial of degree one. -/
def linearVariable (m : Monomial α) : Option (Variable α) :=
  if m.degree = 1 then (m.factors.find? (·.2 = 1)).map (·.1) else none

/-! ## Signatures -/

/-- Add to the exponent of an identifier in a list sorted by identifier. -/
def addSorted (id : VariableId) (e : UInt32) :
    List (VariableId × UInt32) → List (VariableId × UInt32)
  | [] => [(id, e)]
  | (j, k) :: rest =>
    if id.index < j.index then (id, e) :: (j, k) :: rest
    else if id = j then (j, k + e) :: rest
    else (j, k) :: addSorted id e rest

/-- The positive total exponent of each variable, sorted by identifier. -/
def signature (m : Monomial α) : List (VariableId × UInt32) :=
  (m.factors.foldl (fun s f => addSorted f.1.id f.2 s) []).filter (0 < ·.2)

/-- Whether two monomials differ at most in their coefficients and the writing of their factors. -/
def sameSignature (a b : Monomial α) : Bool := a.signature = b.signature

/-! ## Building monomials -/

/-- The same factors under another coefficient. -/
def withCoefficient (m : Monomial α) (c : α) : Monomial α := { m with coefficient := c }

/-- The coefficient multiplied from the right. -/
def scaled [Mul α] (m : Monomial α) (c : α) : Monomial α := m.withCoefficient (m.coefficient * c)

/-- Multiply by one factor: its exponent is added at the first place of the variable, or the factor
comes last when the variable is new. There is no answer when the variable has no exponent at its
place. -/
def timesFactor (m : Monomial α) (f : Variable α × UInt32) : Option (Monomial α) :=
  match m.vars.findIdx? (· == f.1) with
  | some i => (m.exponents[i]?).map fun e => { m with exponents := m.exponents.set i (e + f.2) }
  | none =>
    some { m with vars := m.vars ++ [f.1], exponents := m.exponents ++ [f.2] }

/-- The product of two monomials: the factors of the first, then the new ones of the second. -/
def times [Mul α] (a b : Monomial α) : Option (Monomial α) :=
  b.factors.foldlM timesFactor (a.withCoefficient (a.coefficient * b.coefficient))

/-- Add a factor to a list of factors with different variables. -/
def addFactor (f : Variable α × UInt32) : List (Variable α × UInt32) → List (Variable α × UInt32)
  | [] => [f]
  | g :: rest => if g.1 == f.1 then (g.1, g.2 + f.2) :: rest else g :: addFactor f rest

/-- Every variable once, in the order of first places. -/
def mergedFactors (m : Monomial α) : List (Variable α × UInt32) :=
  m.factors.foldl (fun fs f => addFactor f fs) []

/-- The same monomial with every variable once and no zero exponents. -/
def normalized (m : Monomial α) : Monomial α :=
  ofFactors m.coefficient (m.mergedFactors.filter (0 < ·.2))

/-! ## Text -/

/-- A factor in running text; an exponent of one is not written. -/
def factorText (f : Variable α × UInt32) : String :=
  if f.2 = 1 then f.1.text else f.1.text ++ "^" ++ toString f.2.toNat

/-- What stands before the factors: nothing for one, a minus for minus one, else the coefficient and
a space. -/
def coefficientText [One α] [Neg α] [BEq α] [Numeral α] (c : α) : String :=
  if c == -1 then "-" else if c == 1 then "" else numeral c ++ " "

/-- A monomial in running text. -/
def text [One α] [Neg α] [BEq α] [Numeral α] (m : Monomial α) : String :=
  if m.vars.isEmpty then numeral m.coefficient
  else coefficientText m.coefficient ++ String.intercalate " " (m.factors.map factorText)

end Monomial

end DecisionAlgebra
