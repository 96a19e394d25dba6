import DecisionAlgebra.Algebra.Operators
import DecisionAlgebra.Calculus.Derivative
import DecisionAlgebra.Calculus.Power
import DecisionAlgebra.Calculus.Substitution
import DecisionAlgebra.Constraint.Comparison
import DecisionAlgebra.Linear.Implication
import DecisionAlgebra.Linear.Representation
import DecisionAlgebra.Proofs.Sequencing

/-!
# The log agrees with the outcome

An event is raised where a check or a shape is found wrong, and the error is made beside it; the
rest of an operation is quiet. So the events of an operation can be told from how it ends: `told` is
the one event for an invalid operand or for shapes that do not fit, and nothing otherwise. A call
that tells exactly this is followed by another that does, because the first has told nothing when it
has a value (`TellsRefusal.bind`), and an operation is a sequence of such calls.

Linear representations and implications are told the other way round, when they succeed: the event
comes last, after quiet steps (`tellsValue_quiet_bind`).

No law of arithmetic is used, and no operand needs to be valid.
-/

namespace DecisionAlgebra

variable {α β : Type}

/-! ## What is told of an outcome -/

/-- The event for the cause of a refusal: an operand that is invalid is told with its place and the
code of what is wrong with it, shapes that do not fit are told both, and nothing else is told. -/
def Error.event? : Error → Option Event
  | .invalidOperand op side source => some (.invalidOperand op side source.code)
  | .shapeMismatch op l r => some (.shapeMismatch op l r)
  | .vectorShapeMismatch op l r => some (.shapeMismatch op l r)
  | .matrixShapeMismatch op l r => some (.shapeMismatch op l r)
  | _ => none

/-- The events of a call that ends like this. -/
def told : Outcome α → List Event
  | .error (.refused e) => e.event?.toList
  | _ => []

/-- The outcome is none of which anything is told. -/
def Untold (o : Outcome α) : Prop := told o = []

/-- What is told of a refusal is told at the same level and as the same status. -/
theorem Error.rejected_of_event? {e : Error} {v : Event} (h : e.event? = some v) :
    v.level = .debug ∧ v.origin.2.2 = "rejected" := by
  unfold event? at h
  split at h <;> cases h <;> exact ⟨rfl, rfl⟩

theorem untold_ok (a : α) : Untold (.ok a : Outcome α) := rfl

theorem untold_read (o : Option α) : Untold (Attempt.read o : Outcome α) := by
  cases o <;> rfl

theorem untold_refuse {e : Error} (h : e.event? = none) : Untold (Attempt.refuse e : Outcome α) :=
  congrArg Option.toList h

theorem untold_checked {x : Except Error α} (h : ∀ e, x = .error e → e.event? = none) :
    Untold (Attempt.checked x : Outcome α) := by
  cases x with
  | ok a => exact untold_ok a
  | error e => exact untold_refuse (h e rfl)

theorem Untold.bind {x : Outcome α} {f : α → Outcome β} (hx : Untold x)
    (hf : ∀ a, Untold (f a)) : Untold (x >>= f) := by
  cases x with
  | ok a => exact hf a
  | error e => cases e <;> exact hx

namespace Traced

@[simp] theorem events_pure (a : α) : (pure a : Traced α).events = [] := rfl

@[simp] theorem events_quiet (o : Outcome α) : (quiet o).events = [] := rfl

@[simp] theorem events_emit (e : Event) : (emit e).events = [e] := rfl

/-- The events of a call come before those of the next, which is only made if the first has a
value. -/
theorem events_bind (x : Traced α) (f : α → Traced β) :
    (x >>= f).events =
      x.events ++ match x.outcome with
        | .ok a => (f a).events
        | .error _ => [] := by
  show (andThen x f).events = _
  unfold andThen
  cases x.outcome with
  | ok a => rfl
  | error e => exact (List.append_nil _).symm

/-! ## Refusals -/

/-- The events are what is told of the outcome. -/
def TellsRefusal (x : Traced α) : Prop := x.events = told x.outcome

theorem tellsRefusal_quiet {o : Outcome α} (h : Untold o) : (quiet o).TellsRefusal := h.symm

theorem tellsRefusal_refuse {e : Error} (h : e.event? = none) :
    (refuse e : Traced α).TellsRefusal :=
  tellsRefusal_quiet (untold_refuse h)

/-- A call that has a value has told nothing, so what the next tells is all that is told. -/
theorem TellsRefusal.bind {x : Traced α} {f : α → Traced β} (hx : x.TellsRefusal)
    (hf : ∀ a, (f a).TellsRefusal) : (x >>= f).TellsRefusal := by
  unfold TellsRefusal at hx hf ⊢
  rw [events_bind, outcome_bind, hx]
  cases x.outcome with
  | ok a => exact hf a
  | error e => cases e <;> exact List.append_nil _

/-! ## Values -/

/-- Exactly one event is raised when there is a value, a success of the given level that is related
to the value, and none otherwise. -/
def TellsValue (level : Level) (R : α → Event → Prop) (x : Traced α) : Prop :=
  match x.outcome with
  | .ok a => ∃ v, x.events = [v] ∧ v.level = level ∧ v.origin.2.2 = "success" ∧ R a v
  | .error _ => x.events = []

variable {level : Level} {R : β → Event → Prop}

theorem tellsValue_emit {v : Event} {b : β} (hlevel : v.level = level)
    (hstatus : v.origin.2.2 = "success") (hR : R b v) :
    (emit v >>= fun _ => pure b).TellsValue level R :=
  ⟨v, rfl, hlevel, hstatus, hR⟩

/-- Quiet steps before it change nothing. -/
theorem tellsValue_quiet_bind {o : Outcome α} {f : α → Traced β}
    (hf : ∀ a, o = .ok a → (f a).TellsValue level R) : (quiet o >>= f).TellsValue level R := by
  cases o with
  | ok a => exact hf a rfl
  | error e => exact rfl

end Traced

open Traced (TellsRefusal TellsValue)

/-! ## Grids -/

namespace Grid

theorem event?_of_toExpression [One α] {g : Grid α} {e : Error} (h : g.toExpression = .error e) :
    e.event? = none := by
  have hentries : ∀ {f : List (g.kind.Entry α) → Expression α},
      (g.elements.mapM (Scalar.toEntry g.kind) >>= fun xs => pure (f xs)) = .error e →
        e.event? = none := by
    intro f hf
    rw [bind_eq_error] at hf
    rcases hf with hlift | ⟨xs, -, hf⟩
    · -- a lift is refused for the kind alone
      obtain ⟨s, -, hs⟩ := mapM_eq_error hlift
      unfold Scalar.toEntry at hs
      split at hs <;> cases hs
      rfl
    · cases hf
  unfold toExpression at h
  split at h
  next =>
    split at h <;> cases h
    rfl
  next => exact hentries h
  next => exact hentries h

theorem untold_toExpression [One α] (g : Grid α) : Untold (Attempt.checked g.toExpression) :=
  untold_checked fun _ => event?_of_toExpression

theorem event?_mismatch (op : Operation) (l r : Grid α) :
    (mismatch op l r).event? = some (.shapeMismatch op l.shape r.shape) := by
  unfold mismatch
  split <;> rfl

/-- Both errors and events name the operation and both shapes. -/
theorem tellsRefusal_refuseShapes (op : Operation) (l r : Grid α) :
    (refuseShapes op l r : Traced β).TellsRefusal := by
  show [Event.shapeMismatch op l.shape r.shape] = (mismatch op l r).event?.toList
  rw [event?_mismatch]
  rfl

theorem tellsRefusal_layout (op : Operation) (l r : Grid α) : (layout op l r).TellsRefusal := by
  unfold layout
  split
  next => exact rfl
  next => exact rfl
  next => exact rfl
  next =>
    split
    next => exact rfl
    next => exact tellsRefusal_refuseShapes op l r

theorem tellsRefusal_combine [One α] (op : Operation)
    (f : Scalar α → Scalar α → Option (Scalar α)) (l r : Grid α) :
    (combine op f l r).TellsRefusal := by
  refine (tellsRefusal_layout op l r).bind fun fs => Traced.tellsRefusal_quiet ?_
  refine (untold_read _).bind fun ps => (untold_read _).bind fun es => ?_
  exact untold_toExpression _

end Grid

/-! ## Operations -/

namespace Expression

theorem tellsRefusal_checkOperand (op : Operation) (side : Side) (e : Expression α) :
    (e.checkOperand op side).TellsRefusal := by
  unfold checkOperand
  split
  next => exact rfl
  next => exact rfl

theorem tellsRefusal_checkOperands (op : Operation) (l r : Expression α) :
    (checkOperands op l r).TellsRefusal :=
  (tellsRefusal_checkOperand op .left l).bind fun _ => tellsRefusal_checkOperand op .right r

theorem tellsRefusal_plus [One α] [Add α] (l r : Expression α) : (l.plus r).TellsRefusal :=
  (tellsRefusal_checkOperands .plus l r).bind fun _ => Grid.tellsRefusal_combine _ _ _ _

theorem tellsRefusal_minus [One α] [Add α] [Neg α] [Mul α] (l r : Expression α) :
    (l.minus r).TellsRefusal := by
  refine (tellsRefusal_checkOperands .minus l r).bind fun _ => ?_
  refine (Traced.tellsRefusal_quiet (untold_read _)).bind fun g => ?_
  exact Grid.tellsRefusal_combine _ _ _ _

theorem tellsRefusal_matrixProduct [Zero α] [One α] [Add α] [Mul α] [BEq α] (l r : Grid α) :
    (matrixProduct l r).TellsRefusal := by
  unfold matrixProduct
  split
  next =>
    refine Traced.tellsRefusal_quiet ((untold_read _).bind fun es => ?_)
    exact Grid.untold_toExpression _
  next => exact Grid.tellsRefusal_refuseShapes .multiply l r

theorem tellsRefusal_multiply [Zero α] [One α] [Add α] [Mul α] [BEq α] (l r : Expression α) :
    (l.multiply r).TellsRefusal := by
  refine (tellsRefusal_checkOperands .multiply l r).bind fun _ => ?_
  split
  next => exact Grid.tellsRefusal_combine _ _ _ _
  next => exact tellsRefusal_matrixProduct _ _

theorem tellsRefusal_transpose (e : Expression α) : e.transpose.TellsRefusal :=
  (tellsRefusal_checkOperand .transpose .left e).bind fun _ =>
    Traced.tellsRefusal_quiet (untold_read _)

/-- Only the type of an operand can stand in the way of a constraint once their shapes fit. -/
theorem event?_of_constraintOf {l r : Expression α} {sense : Sense} {form : Form} {shape : Shape}
    {e : Error} (h : l.constraintOf r sense form shape = .error e) : e.event? = none := by
  unfold constraintOf at h
  split at h
  next => cases h
  next => cases h
  next =>
    split at h <;> cases h
    rfl

theorem tellsRefusal_compare (l r : Expression α) (sense : Sense) :
    (l.compare r sense).TellsRefusal := by
  refine (tellsRefusal_checkOperands .comparison l r).bind fun _ => ?_
  refine (Grid.tellsRefusal_layout _ _ _).bind fun fs => ?_
  exact Traced.tellsRefusal_quiet (untold_checked fun _ => event?_of_constraintOf)

theorem tellsRefusal_derivativeBy [Zero α] [One α] [NatCast α] [Mul α] (e : Expression α)
    (v : Variable α) : (e.derivativeBy v).TellsRefusal := by
  refine (tellsRefusal_checkOperand .derivative .left e).bind fun _ => ?_
  refine (tellsRefusal_checkOperand .derivative .right _).bind fun _ => ?_
  exact Traced.tellsRefusal_quiet (Grid.untold_toExpression _)

theorem tellsRefusal_substitute [Zero α] [One α] [Add α] [Mul α] [BEq α] (e : Expression α)
    (v : Variable α) (replacement : Expression α) :
    (e.substitute v replacement).TellsRefusal := by
  refine (tellsRefusal_checkOperand .substitute .left e).bind fun _ => ?_
  refine (tellsRefusal_checkOperand .substitute .right _).bind fun _ => ?_
  refine (tellsRefusal_checkOperand .substitute .right replacement).bind fun _ => ?_
  split
  next => exact Traced.tellsRefusal_refuse rfl
  next =>
    refine Traced.tellsRefusal_quiet ((untold_read _).bind fun g => ?_)
    exact Grid.untold_toExpression g

/-- Each replacement is made only if those before it had a value, and then they have told
nothing. -/
theorem tellsRefusal_substituteAll [Zero α] [One α] [Add α] [Mul α] [BEq α]
    (subs : List (Variable α × Scalar α)) (e : Expression α) :
    (e.substituteAll subs).TellsRefusal := by
  induction subs generalizing e with
  | nil => exact rfl
  | cons s subs ih => exact (e.tellsRefusal_substitute s.1 (.scalar s.2)).bind ih

theorem event?_of_powerExponent {n : Int} {e : Error} (h : powerExponent n = .error e) :
    e.event? = none := by
  unfold powerExponent at h
  split at h
  next =>
    cases h
    rfl
  next =>
    split at h <;> cases h
    rfl

theorem tellsRefusal_power [One α] [Mul α] (e : Expression α) (n : Int) :
    (e.power n).TellsRefusal := by
  refine (tellsRefusal_checkOperand .power .left e).bind fun _ => ?_
  split
  next => exact Traced.tellsRefusal_refuse rfl
  next =>
    refine Traced.tellsRefusal_quiet ((untold_checked fun _ => event?_of_powerExponent).bind ?_)
    exact fun n => (untold_read _).bind fun s => untold_ok _

end Expression

/-! ## Linear representations and implications -/

section Linear

variable [Zero α] [One α] [Add α] [Neg α] [Mul α] [BEq α] [Numeral α]

/-- The event for a linear form has its sense and the number of its variables. -/
def LinearForm.IsTold (f : LinearForm α) (v : Event) : Prop :=
  v = .linearForm f.sense f.ordering.length

/-- The event for a linear system has its sense and the numbers of its rows and variables. -/
def LinearSystem.IsTold (s : LinearSystem α) (v : Event) : Prop :=
  v = .linearSystem s.sense s.coefficients.rows s.ordering.length

namespace ScalarConstraint

theorem tellsValue_linearForm (c : ScalarConstraint α) (wrt : Option (List (Variable α))) :
    (c.linearForm wrt).TellsValue .debug LinearForm.IsTold :=
  Traced.tellsValue_quiet_bind fun _ _ => Traced.tellsValue_emit rfl rfl rfl

theorem tellsValue_linearInequality (c : ScalarConstraint α)
    (wrt : Option (List (Variable α))) :
    (c.linearInequality wrt).TellsValue .debug LinearForm.IsTold :=
  Traced.tellsValue_quiet_bind fun _ _ =>
    Traced.tellsValue_quiet_bind fun _ _ => c.tellsValue_linearForm wrt

theorem tellsValue_linearEquality (c : ScalarConstraint α) (wrt : Option (List (Variable α))) :
    (c.linearEquality wrt).TellsValue .debug LinearForm.IsTold :=
  Traced.tellsValue_quiet_bind fun _ _ =>
    Traced.tellsValue_quiet_bind fun _ _ => c.tellsValue_linearForm wrt

/-- The event for an implication has the senses of the two bounds and the answer. -/
def ImplicationIsTold [Div α] [LT α] [DecidableLT α] (a b : ScalarConstraint α) (implied : Bool)
    (v : Event) : Prop :=
  ∃ p q, a.bound .left = .ok p ∧ b.bound .right = .ok q ∧
    v = .comparedBounds p.sense q.sense implied

theorem tellsValue_implies [Div α] [LE α] [DecidableLE α] [LT α] [DecidableLT α]
    (a b : ScalarConstraint α) : (a.implies b).TellsValue .trace (ImplicationIsTold a b) := by
  refine Traced.tellsValue_quiet_bind fun p hp => Traced.tellsValue_quiet_bind fun q hq => ?_
  split
  next =>
    refine Traced.tellsValue_emit rfl rfl ⟨p, q, ?_, ?_, rfl⟩
    · exact Attempt.checked_eq_ok.mp hp
    · exact Attempt.checked_eq_ok.mp hq
  next => exact rfl

end ScalarConstraint

namespace Constraint

theorem tellsValue_linearSystem (c : Constraint α) (wrt : Option (List (Variable α))) :
    (c.linearSystem wrt).TellsValue .debug LinearSystem.IsTold :=
  Traced.tellsValue_quiet_bind fun _ _ => Traced.tellsValue_emit rfl rfl rfl

theorem tellsValue_linearRepresentation (c : Constraint α) (wrt : Option (List (Variable α))) :
    (c.linearRepresentation wrt).TellsValue .debug LinearSystem.IsTold :=
  Traced.tellsValue_quiet_bind fun _ _ => c.tellsValue_linearSystem wrt

theorem tellsValue_linearInequality (c : Constraint α) (wrt : Option (List (Variable α))) :
    (c.linearInequality wrt).TellsValue .debug LinearSystem.IsTold :=
  Traced.tellsValue_quiet_bind fun _ _ =>
    Traced.tellsValue_quiet_bind fun _ _ => c.tellsValue_linearSystem wrt

theorem tellsValue_linearEquality (c : Constraint α) (wrt : Option (List (Variable α))) :
    (c.linearEquality wrt).TellsValue .debug LinearSystem.IsTold :=
  Traced.tellsValue_quiet_bind fun _ _ =>
    Traced.tellsValue_quiet_bind fun _ _ => c.tellsValue_linearSystem wrt

end Constraint

end Linear

/-! ## The log -/

/-- **The log agrees with the outcome.** An operation on expressions raises one event when it is
refused for an invalid operand or for shapes that do not fit, which says so at level debug, and none
otherwise. An extraction of a linear form or system raises one event at level debug when it has a
value, with the sense and the numbers of rows and variables of the value, and none otherwise; and a
decided implication one at level trace, with the senses of the two bounds and the answer. -/
theorem events_agree_with_outcome [Zero α] [One α] [NatCast α] [Add α] [Neg α] [Mul α] [Div α]
    [LE α] [DecidableLE α] [LT α] [DecidableLT α] [BEq α] [Numeral α] :
    (∀ (e : Error) (v : Event), e.event? = some v →
      v.level = .debug ∧ v.origin.2.2 = "rejected") ∧
    (∀ l r : Expression α, (l.plus r).TellsRefusal ∧ (l.minus r).TellsRefusal ∧
      (l.multiply r).TellsRefusal ∧ ∀ sense, (l.compare r sense).TellsRefusal) ∧
    (∀ e : Expression α, e.transpose.TellsRefusal ∧ (∀ v, (e.derivativeBy v).TellsRefusal) ∧
      (∀ v replacement, (e.substitute v replacement).TellsRefusal) ∧
      (∀ subs, (e.substituteAll subs).TellsRefusal) ∧ ∀ n, (e.power n).TellsRefusal) ∧
    (∀ (c : ScalarConstraint α) (wrt : Option (List (Variable α))),
      (c.linearInequality wrt).TellsValue .debug LinearForm.IsTold ∧
      (c.linearEquality wrt).TellsValue .debug LinearForm.IsTold) ∧
    (∀ (c : Constraint α) (wrt : Option (List (Variable α))),
      (c.linearRepresentation wrt).TellsValue .debug LinearSystem.IsTold ∧
      (c.linearInequality wrt).TellsValue .debug LinearSystem.IsTold ∧
      (c.linearEquality wrt).TellsValue .debug LinearSystem.IsTold) ∧
    ∀ a b : ScalarConstraint α,
      (a.implies b).TellsValue .trace (ScalarConstraint.ImplicationIsTold a b) := by
  refine ⟨fun e v => Error.rejected_of_event?, fun l r => ?_, fun e => ?_, fun c wrt => ?_,
    fun c wrt => ?_, fun a b => a.tellsValue_implies b⟩
  · exact ⟨l.tellsRefusal_plus r, l.tellsRefusal_minus r, l.tellsRefusal_multiply r,
      l.tellsRefusal_compare r⟩
  · exact ⟨e.tellsRefusal_transpose, e.tellsRefusal_derivativeBy, e.tellsRefusal_substitute,
      fun subs => Expression.tellsRefusal_substituteAll subs e, e.tellsRefusal_power⟩
  · exact ⟨c.tellsValue_linearInequality wrt, c.tellsValue_linearEquality wrt⟩
  · exact ⟨c.tellsValue_linearRepresentation wrt, c.tellsValue_linearInequality wrt,
      c.tellsValue_linearEquality wrt⟩

/-- The sum of a row and a column is refused, and the event has both shapes. -/
theorem events_agree_with_outcome_row :
    let x : Variable Float := ⟨⟨0⟩, .continuous, 0, 1⟩
    let y : Variable Float := ⟨⟨1⟩, .continuous, 0, 1⟩
    let l : Expression Float := .matrix .variable ⟨1, 2, [x, y]⟩
    let r : Expression Float := .vector .variable ⟨[x, y]⟩
    (l.plus r).outcome = .error (.refused (.shapeMismatch .plus ⟨1, 2⟩ ⟨2, 1⟩)) ∧
      (l.plus r).events = [.shapeMismatch .plus ⟨1, 2⟩ ⟨2, 1⟩] ∧
      (Event.shapeMismatch .plus ⟨1, 2⟩ ⟨2, 1⟩).level = .debug := by
  intro x y l r
  obtain ⟨hrejected, hoperators, -⟩ := @events_agree_with_outcome Float _ _ _ _ _ _ _ _ _ _ _ _ _
  have hrefused : (l.plus r).outcome =
      .error (.refused (.shapeMismatch .plus ⟨1, 2⟩ ⟨2, 1⟩)) := by cbv
  have hevents : (l.plus r).events = told (l.plus r).outcome := (hoperators l r).1
  rw [hrefused] at hevents
  exact ⟨hrefused, hevents, (hrejected (.shapeMismatch .plus ⟨1, 2⟩ ⟨2, 1⟩) _ rfl).1⟩

end DecisionAlgebra
