import DecisionAlgebra.Monomial
import DecisionAlgebra.Number.Arithmetic

/-!
# Polynomials

A polynomial is a sum of monomials in the order in which they were given. Like terms stay apart
until `simplified` combines them.
-/

namespace DecisionAlgebra

/-- A sum of monomials. -/
structure Polynomial (α : Type) where
  monomials : List (Monomial α)

namespace Polynomial

variable {α : Type}

instance [BEq α] : BEq (Polynomial α) := ⟨fun p q => p.monomials == q.monomials⟩

/-! ## Reading a polynomial -/

/-- At least one monomial, and every monomial valid. -/
def check (p : Polynomial α) : Except Error Unit :=
  if p.monomials.isEmpty then .error .emptyPolynomial else p.monomials.forM Monomial.check

/-- The highest degree of a monomial. -/
def degree (p : Polynomial α) : UInt32 := (p.monomials.map Monomial.degree).foldl max 0

/-- The sum of the coefficients of the monomials of degree zero. -/
def constant [Zero α] [Neg α] [Add α] (p : Polynomial α) : α :=
  total ((p.monomials.filter (·.degree = 0)).map (·.coefficient))

/-- The occurring variables, each once. -/
def occurring (p : Polynomial α) : List (Variable α) :=
  Variable.distinct (p.monomials.flatMap Monomial.occurring)

/-- Whether every monomial is of degree at most one. -/
def isLinear (p : Polynomial α) : Bool := p.monomials.all Monomial.isLinear

/-! ## Building polynomials -/

/-- The monomials of positive degree, or a single zero when there are none. -/
def withoutConstant [Zero α] (p : Polynomial α) : Polynomial α :=
  match p.monomials.filter (0 < ·.degree) with
  | [] => ⟨[Monomial.constant 0]⟩
  | ms => ⟨ms⟩

/-- The monomials of a polynomial followed by further ones. -/
def append (p : Polynomial α) (ms : List (Monomial α)) : Polynomial α := ⟨p.monomials ++ ms⟩

/-- Every monomial times every one of `ms`, those of `ms` varying faster. -/
def distribute [Mul α] (p : Polynomial α) (ms : List (Monomial α)) : Option (Polynomial α) := do
  let rows ← p.monomials.mapM fun l => ms.mapM fun r => l.times r
  return ⟨rows.flatten⟩

/-! ## Like terms -/

/-- Terms collected so far: each with its signature, no signature twice. -/
abbrev Groups (α : Type) := List (List (VariableId × UInt32) × Monomial α)

/-- Add a monomial of the given signature to the group with that signature, or start a new group
last. -/
def addTerm [Add α] (s : List (VariableId × UInt32)) (m : Monomial α) : Groups α → Groups α
  | [] => [(s, m.normalized)]
  | g :: rest =>
    if g.1 = s then (g.1, g.2.withCoefficient (g.2.coefficient + m.coefficient)) :: rest
    else g :: addTerm s m rest

/-- The groups of like terms in the order of their first members. -/
def groups [Add α] (ms : List (Monomial α)) : Groups α :=
  ms.foldl (fun gs m => addTerm m.signature m gs) []

/-- Like terms combined and zero terms left out; a single zero when nothing remains. -/
def simplified [Zero α] [Add α] [BEq α] (p : Polynomial α) : Polynomial α :=
  match ((groups p.monomials).map (·.2)).filter (fun m => !(m.coefficient == 0)) with
  | [] => ⟨[Monomial.constant 0]⟩
  | ms => ⟨ms⟩

/-! ## Text -/

/-- A polynomial in running text. -/
def text [One α] [Neg α] [BEq α] [Numeral α] (p : Polynomial α) : String :=
  String.intercalate " + " (p.monomials.map Monomial.text)

end Polynomial

end DecisionAlgebra
