/-!
# Decision variables

A variable is known by its identifier alone: two variables with one identifier are the same
variable, whatever their domains and bounds, which are only carried along.
-/

namespace DecisionAlgebra

/-- The number of a variable within its environment. -/
structure VariableId where
  index : Nat
  deriving DecidableEq, Repr

namespace VariableId

/-- The largest 32-bit number is kept for variables that no environment has made. -/
def undefined : VariableId := ⟨4294967295⟩

instance : Inhabited VariableId := ⟨undefined⟩

/-- Whether an environment may have made a variable with this identifier. -/
def isDefined (id : VariableId) : Bool := id ≠ undefined

/-- The number, or a question mark for the undefined identifier. -/
def text (id : VariableId) : String := if id.isDefined then toString id.index else "?"

end VariableId

/-- The values that a variable may take. -/
inductive Domain where
  | continuous
  | binary
  | integer
  deriving DecidableEq, Repr

/-- The word for a domain. -/
def Domain.name : Domain → String
  | .continuous => "continuous"
  | .binary => "binary"
  | .integer => "integer"

/-- An unknown with its domain and bounds. -/
structure Variable (α : Type) where
  id : VariableId
  domain : Domain
  lower : α
  upper : α

namespace Variable

variable {α : Type}

instance : BEq (Variable α) := ⟨fun v w => v.id == w.id⟩

/-- Variables are compared by number. -/
def cmp (v w : Variable α) : Ordering := compare v.id.index w.id.index

/-- The written name of a variable. -/
def text (v : Variable α) : String := "x_" ++ v.id.text

/-- The variables not yet seen, each at its first place. -/
def distinctFrom (seen : List VariableId) : List (Variable α) → List (Variable α)
  | [] => []
  | v :: vs =>
    if v.id ∈ seen then distinctFrom seen vs else v :: distinctFrom (v.id :: seen) vs

/-- Every variable of a list once, in the order of first places. -/
def distinct (vs : List (Variable α)) : List (Variable α) := distinctFrom [] vs

end Variable

end DecisionAlgebra
