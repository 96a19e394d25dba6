import DecisionAlgebra.Expression

/-!
# Environments

An environment numbers the variables that it makes, from zero and without gaps. Vectors and matrices
of variables are numbered by rows.
-/

namespace DecisionAlgebra

/-- A name and the number of variables made so far, which is also the next identifier. -/
structure Environment where
  name : String
  made : Nat
  deriving DecidableEq, Repr

namespace Environment

variable {α : Type}

/-- An environment that has made no variable. -/
def new (name : String) : Environment := ⟨name, 0⟩

/-- The environment for callers that keep none of their own. -/
def shared : Environment := new "global"

/-- Make a variable of a given domain and bounds. -/
def allocate (domain : Domain) (lower upper : α) (env : Environment) :
    Variable α × Environment :=
  (⟨⟨env.made⟩, domain, lower, upper⟩, { env with made := env.made + 1 })

/-- A continuous variable between two bounds, which are kept as given. -/
def bounded (lower upper : α) : Environment → Variable α × Environment :=
  allocate .continuous lower upper

/-- A continuous variable without bounds. -/
def free [Extended α] : Environment → Variable α × Environment :=
  bounded Extended.negInfinity Extended.infinity

/-- A variable that is zero or one. -/
def binary [Zero α] [One α] : Environment → Variable α × Environment := allocate .binary 0 1

/-- An integer variable between two bounds, which are kept as given. -/
def integer (lower upper : α) : Environment → Variable α × Environment :=
  allocate .integer lower upper

/-- A list of free variables. -/
def freeList [Extended α] : Nat → Environment → List (Variable α) × Environment
  | 0, env => ([], env)
  | n + 1, env =>
    let (v, env) : Variable α × Environment := env.free
    let (vs, env) := freeList n env
    (v :: vs, env)

/-- A column of free variables. -/
def vector [Extended α] (n : Nat) (env : Environment) : Column (Variable α) × Environment :=
  let (vs, env) : List (Variable α) × Environment := env.freeList n
  (⟨vs⟩, env)

/-- A matrix of free variables. -/
def matrix [Extended α] (rows cols : Nat) (env : Environment) :
    Matrix (Variable α) × Environment :=
  let (vs, env) : List (Variable α) × Environment := env.freeList (rows * cols)
  (⟨rows, cols, vs⟩, env)

end Environment

/-- A variable that no environment has made: continuous, without bounds. -/
def Variable.undefined {α : Type} [Extended α] : Variable α :=
  ⟨.undefined, .continuous, Extended.negInfinity, Extended.infinity⟩

end DecisionAlgebra
