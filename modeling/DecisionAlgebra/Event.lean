import DecisionAlgebra.Error

/-!
# Events

What the library tells a log while it works: a refused operand, like terms combined, linear
coefficients extracted, bounds compared. An event is data; writing it out is left to the log.
-/

namespace DecisionAlgebra

/-- What can be told. -/
inductive Event where
  /-- An operand failed its check with an error of this code. -/
  | invalidOperand (operation : Operation) (side : Side) (code : String)
  /-- The shapes of the operands do not fit. -/
  | shapeMismatch (operation : Operation) (left right : Shape)
  /-- A polynomial went from one number of terms to another. -/
  | combinedTerms (before after : Nat)
  /-- A linear form over some variables was extracted. -/
  | linearForm (sense : Sense) (vars : Nat)
  /-- A linear system of some rows over some variables was extracted. -/
  | linearSystem (sense : Sense) (rows vars : Nat)
  /-- Two bounds on one variable were compared. -/
  | comparedBounds (premise conclusion : Sense) (implied : Bool)
  deriving DecidableEq, Repr

/-- How much an event matters. -/
inductive Level where
  | debug
  | trace
  deriving DecidableEq, Repr

/-- The word for a level. -/
def Level.name : Level → String
  | .debug => "DEBUG"
  | .trace => "TRACE"

/-- The value of one field of an event. -/
inductive FieldValue where
  | text (s : String)
  | count (n : Nat)
  | flag (b : Bool)
  deriving DecidableEq, Repr

namespace Event

/-- How much each event matters. -/
def level : Event → Level
  | combinedTerms .. => .trace
  | comparedBounds .. => .trace
  | _ => .debug

/-- The sentence that goes with an event. -/
def message : Event → String
  | invalidOperand .. => "Invalid operand"
  | shapeMismatch .. => "Operand shapes do not match"
  | combinedTerms .. => "Combined like terms"
  | linearForm .. => "Extracted linear form"
  | linearSystem .. => "Extracted linear system"
  | comparedBounds .. => "Compared single-variable bounds"

/-- The part of the library that raises an event, what it was doing, and how that went. -/
def origin : Event → String × String × String
  | invalidOperand op .. => ("ops", op.name, "rejected")
  | shapeMismatch op .. => ("ops", op.name, "rejected")
  | combinedTerms .. => ("simplify", "polynomial", "success")
  | linearForm .. => ("linear", "representation", "success")
  | linearSystem .. => ("linear", "representation", "success")
  | comparedBounds .. => ("linear", "implies", "success")

/-- The fields that only some events have. -/
def details : Event → List (String × FieldValue)
  | invalidOperand _ side code => [("side", .text side.name), ("code", .text code)]
  | shapeMismatch _ l r => [("left", .text l.text), ("right", .text r.text)]
  | combinedTerms before after => [("terms_before", .count before), ("terms_after", .count after)]
  | linearForm sense vars =>
    [("sense", .text sense.name), ("num_variables", .count vars)]
  | linearSystem sense rows vars =>
    [("sense", .text sense.name), ("num_rows", .count rows), ("num_variables", .count vars)]
  | comparedBounds premise conclusion implied =>
    [("premise", .text premise.name), ("conclusion", .text conclusion.name),
      ("implied", .flag implied)]

/-- All fields of an event in order, its message last. -/
def fields (e : Event) : List (String × FieldValue) :=
  let (component, operation, status) := e.origin
  [("component", .text component), ("operation", .text operation), ("status", .text status)] ++
    e.details ++ [("message", .text e.message)]

end Event

end DecisionAlgebra
