/-!
# JSON values

A value as a tree. Whole numbers written without a fraction or an exponent are kept exact; every
other number is a value of the number type. Members of an object keep their order, and a name may
come twice.
-/

namespace DecisionAlgebra

/-- A JSON value over a type of numbers. -/
inductive Json (α : Type) where
  | null
  | bool (b : Bool)
  | integer (n : Int)
  | real (x : α)
  | string (s : String)
  /-- A string with half of a surrogate pair, which no text corresponds to, or an object with such a
  string for a name. -/
  | unpaired
  | array (items : List (Json α))
  | object (members : List (String × Json α))

namespace Json

variable {α : Type}

/-- A natural number. -/
def count (n : Nat) : Json α := .integer n

/-- The last member of a name. -/
def member? (name : String) : Json α → Option (Json α)
  | .object members => (members.reverse.find? (·.1 == name)).map (·.2)
  | _ => none

/-- The items of an array. -/
def items? : Json α → Option (List (Json α))
  | .array items => some items
  | _ => none

/-- The text of a string. -/
def string? : Json α → Option String
  | .string s => some s
  | _ => none

/-- A natural number written without a fraction or an exponent. -/
def count? : Json α → Option Nat
  | .integer (.ofNat n) => some n
  | _ => none

end Json

end DecisionAlgebra
