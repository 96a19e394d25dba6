import DecisionAlgebra.Event
import DecisionAlgebra.Failure

/-!
# Outcomes and traced calls

The calls of this library are refused for the causes in `Error`. A traced call also has the events
it raised, in order.
-/

namespace DecisionAlgebra

/-- How a call of this library ends. -/
abbrev Outcome (α : Type) := Attempt Error α

/-- A call with the events it raised. -/
structure Traced (α : Type) where
  events : List Event
  outcome : Outcome α

namespace Traced

variable {α β : Type}

/-- A call that raises no event. -/
def quiet (o : Outcome α) : Traced α := ⟨[], o⟩

/-- A call that raises one event and goes on. -/
def emit (e : Event) : Traced Unit := ⟨[e], .ok ()⟩

/-- A call that is refused. -/
def refuse (e : Error) : Traced α := quiet (Attempt.refuse e)

/-- One call after another: the second is made only if the first has a value, and its events come
after those of the first. -/
def andThen (x : Traced α) (f : α → Traced β) : Traced β :=
  match x.outcome with
  | .ok a => ⟨x.events ++ (f a).events, (f a).outcome⟩
  | .error e => ⟨x.events, .error e⟩

instance : Monad Traced where
  pure a := quiet (.ok a)
  bind := andThen

end Traced

end DecisionAlgebra
