/-!
# Failures

A call ends with a value, or it is refused for a stated cause, or it reads a stored list or a text
at a place that it does not have. The last is there to be ruled out: it can happen only to a call
that does not check its input first.
-/

namespace DecisionAlgebra

/-- How a call can end without a value. -/
inductive Failure (ε : Type) where
  /-- The input was refused. -/
  | refused (cause : ε)
  /-- A stored list or a text was read outside of its bounds. -/
  | outOfRange
  deriving DecidableEq, Repr

/-- The same failure with another cause in the place of its own. -/
def Failure.map {ε φ : Type} (f : ε → φ) : Failure ε → Failure φ
  | refused e => refused (f e)
  | outOfRange => outOfRange

/-- How a call ends that can be refused for causes of one type. -/
abbrev Attempt (ε α : Type) := Except (Failure ε) α

namespace Attempt

variable {ε α : Type}

/-- The attempt that a check or a construction is which can only be refused. -/
def checked : Except ε α → Attempt ε α
  | .ok a => .ok a
  | .error e => .error (.refused e)

/-- The attempt to read at a place of a stored list or a text. -/
def read : Option α → Attempt ε α
  | some a => .ok a
  | none => .error .outOfRange

/-- A refused attempt. -/
def refuse (e : ε) : Attempt ε α := .error (.refused e)

end Attempt

end DecisionAlgebra
