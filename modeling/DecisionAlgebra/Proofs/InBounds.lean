import DecisionAlgebra.Linear.Implication
import DecisionAlgebra.Proofs.Linear.Extraction
import DecisionAlgebra.Proofs.Places
import DecisionAlgebra.Proofs.Rows
import DecisionAlgebra.Proofs.Validity

/-!
# Nothing is read out of bounds

Expressions and constraints may be malformed: a matrix with more or fewer entries than its shape
asks for, a monomial with more or fewer exponents than variables, a constraint whose recorded shape
has nothing to do with its sides. Every call checks its operands before it reads an element or
writes one into a message, so it ends with a value or is refused. What is well-formed has a text; a
row has an entry for every variable of its ordering; the constraints between elements cover the
recorded shape.
-/

namespace DecisionAlgebra

open Attempt (Answers Ensures)

variable {α β : Type} {P : VariableId → Prop}

/-! ## Texts -/

namespace Matrix

theorem exists_text {m : Matrix β} (h : m.rows * m.cols ≤ m.entries.length)
    (entryText : β → String) : ∃ t, m.text entryText = some t := by
  obtain ⟨rs, hrs⟩ := exists_cutRows? m.rows h
  exact ⟨_, by rw [text, hrs]; rfl⟩

end Matrix

namespace Expression

variable [One α] [Neg α] [BEq α] [Numeral α]

/-- A well-formed expression can be written. -/
theorem FactorsIn.exists_text {e : Expression α} (he : e.FactorsIn P) : ∃ t, e.text = some t := by
  cases e with
  | scalar s => exact ⟨_, rfl⟩
  | vector k c => exact ⟨_, rfl⟩
  | matrix k m =>
    have hlen : m.entries.length = m.rows * m.cols :=
      (List.length_map _).symm.trans he.length_eq
    exact Matrix.exists_text hlen.ge _

theorem ensures_requireLinear {side : Side} {e : Expression α} (h : ∃ t, e.text = some t) :
    Ensures (e.requireLinear side) fun _ => True := by
  obtain ⟨t, ht⟩ := h
  unfold requireLinear
  split
  next => exact Attempt.ensures_ok trivial
  next => exact Attempt.ensures_read_bind ht (Attempt.ensures_refuse _)

/-! ## Coefficients -/

theorem ensures_linearCoefficients [Zero α] [Add α] (e : Expression α)
    (wrt : Option (List (Variable α))) :
    Ensures (e.linearCoefficients wrt) fun _ => True := by
  refine Attempt.ensures_checked_bind fun _ he => ?_
  dsimp only
  split
  next =>
    refine Attempt.ensures_checked_bind fun ordering _ => ?_
    refine Attempt.ensures_checked_bind fun rows hrows => ?_
    obtain ⟨d, hd, -⟩ := DenseMatrix.exists_ofRowMajor? (length_of_mem_rows hrows)
    exact Attempt.ensures_read hd trivial
  next =>
    obtain ⟨t, ht⟩ := (check_eq_ok.mp he).exists_text
    refine Attempt.ensures_read_bind ht ?_
    exact (Attempt.ensures_refuse (Q := fun _ => False) _).bind fun _ => False.elim

end Expression

/-! ## Constraints between scalars -/

section Constraints

variable [Zero α] [One α] [Add α] [Neg α] [Mul α]

namespace ScalarConstraint

variable [BEq α] [Numeral α]

theorem ensures_toForm (c : ScalarConstraint α) (wrt : Option (List (Variable α))) :
    Ensures (c.toForm wrt) fun _ => True := by
  -- the text of a scalar reads no list by places
  refine (Expression.ensures_requireLinear ⟨_, rfl⟩).bind fun _ _ => ?_
  refine (Expression.ensures_requireLinear ⟨_, rfl⟩).bind fun _ _ => ?_
  refine Attempt.ensures_checked_bind fun row _ => ?_
  split <;> exact Attempt.ensures_ok trivial

theorem ensures_linearForm (c : ScalarConstraint α) (wrt : Option (List (Variable α))) :
    Ensures (c.linearForm wrt).outcome fun _ => True :=
  Traced.ensures_bind (c.ensures_toForm wrt) fun _ _ =>
    Traced.ensures_emit_bind (Attempt.ensures_ok trivial)

theorem ensures_linearInequality (c : ScalarConstraint α) (wrt : Option (List (Variable α))) :
    Ensures (c.linearInequality wrt).outcome fun _ => True := by
  refine Traced.ensures_checked_bind fun _ _ => ?_
  exact Traced.ensures_checked_bind fun _ _ => c.ensures_linearForm wrt

theorem ensures_linearEquality (c : ScalarConstraint α) (wrt : Option (List (Variable α))) :
    Ensures (c.linearEquality wrt).outcome fun _ => True := by
  refine Traced.ensures_checked_bind fun _ _ => ?_
  exact Traced.ensures_checked_bind fun _ _ => c.ensures_linearForm wrt

theorem ensures_implies [Div α] [LE α] [DecidableLE α] [LT α] [DecidableLT α]
    (a b : ScalarConstraint α) : Ensures (a.implies b).outcome fun _ => True := by
  refine Traced.ensures_checked_bind fun premise _ => ?_
  refine Traced.ensures_checked_bind fun conclusion _ => ?_
  split
  next => exact Traced.ensures_emit_bind (Attempt.ensures_ok trivial)
  next => exact Attempt.ensures_refuse _

end ScalarConstraint

/-! ## Constraints of any form -/

namespace Constraint

variable [BEq α]

theorem ensures_evaluate [LE α] [DecidableLE α] (c : Constraint α) (p : Point α) :
    Ensures (c.evaluate p) fun _ => True := by
  refine Attempt.ensures_checked_bind fun _ hc => ?_
  obtain ⟨cs, hcs, -, -⟩ := exists_elements hc
  exact Attempt.ensures_read_bind hcs (Attempt.ensures_checked fun _ _ => trivial)

theorem ensures_simplified (c : Constraint α) : Ensures c.simplified fun _ => True := by
  refine Attempt.ensures_checked_bind fun _ hc => ?_
  obtain ⟨cs, hcs, -, -⟩ := exists_elements hc
  refine Attempt.ensures_read_bind hcs ?_
  cases c with
  | scalar c =>
    refine Attempt.ensures_checked_bind fun _ _ => ?_
    exact Attempt.ensures_ok trivial
  | vector c => exact Attempt.ensures_ok trivial
  | matrix c => exact Attempt.ensures_ok trivial

variable [Numeral α]

theorem ensures_toSystem {c : Constraint α} (hc : c.check = .ok ())
    (wrt : Option (List (Variable α))) : Ensures (c.toSystem wrt) fun _ => True := by
  obtain ⟨hl, hr, cs, hcs, -⟩ := exists_constraints? hc
  refine Attempt.ensures_read_bind hcs ?_
  refine (Expression.ensures_requireLinear hl.exists_text).bind fun _ _ => ?_
  refine (Expression.ensures_requireLinear hr.exists_text).bind fun _ _ => ?_
  refine Attempt.ensures_checked_bind fun rows hrows => ?_
  obtain ⟨d, hd, -⟩ := exists_rowMatrix hrows
  exact Attempt.ensures_read_bind hd (Attempt.ensures_ok trivial)

theorem ensures_linearSystem {c : Constraint α} (hc : c.check = .ok ())
    (wrt : Option (List (Variable α))) : Ensures (c.linearSystem wrt).outcome fun _ => True :=
  Traced.ensures_bind (ensures_toSystem hc wrt) fun _ _ =>
    Traced.ensures_emit_bind (Attempt.ensures_ok trivial)

theorem ensures_linearRepresentation (c : Constraint α) (wrt : Option (List (Variable α))) :
    Ensures (c.linearRepresentation wrt).outcome fun _ => True :=
  Traced.ensures_checked_bind fun _ hc => ensures_linearSystem hc wrt

theorem ensures_linearInequality (c : Constraint α) (wrt : Option (List (Variable α))) :
    Ensures (c.linearInequality wrt).outcome fun _ => True := by
  refine Traced.ensures_checked_bind fun _ hc => ?_
  exact Traced.ensures_checked_bind fun _ _ => ensures_linearSystem hc wrt

theorem ensures_linearEquality (c : Constraint α) (wrt : Option (List (Variable α))) :
    Ensures (c.linearEquality wrt).outcome fun _ => True := by
  refine Traced.ensures_checked_bind fun _ hc => ?_
  exact Traced.ensures_checked_bind fun _ _ => ensures_linearSystem hc wrt

end Constraint

end Constraints

/-! ## All calls -/

/-- **Checked calls never read out of bounds.** However malformed the expressions and constraints
are, every call ends with a value or is refused. Where lists are changed by the places of keys,
every place is found: of the variables of a monomial, of the signatures of like terms, and of the
variables of an ordering in a row of coefficients, which has an entry for each of them. -/
theorem calls_answer [Zero α] [One α] [NatCast α] [Add α] [Neg α] [Mul α] [Div α] [LE α]
    [DecidableLE α] [LT α] [DecidableLT α] [BEq α] [Numeral α] :
    (∀ c : Call α, Answers c.outcome) ∧
    (∀ (l r : Expression α) (sense : Sense), Answers (l.compare r sense).outcome) ∧
    (∀ (e : Expression α) (wrt : Option (List (Variable α))), Answers (e.linearCoefficients wrt)) ∧
    (∀ (c : Constraint α) (p : Point α), Answers (c.evaluate p)) ∧
    (∀ c : Constraint α, Answers c.simplified) ∧
    (∀ (c : Constraint α) (wrt : Option (List (Variable α))),
      Answers (c.linearRepresentation wrt).outcome ∧ Answers (c.linearInequality wrt).outcome ∧
        Answers (c.linearEquality wrt).outcome) ∧
    (∀ (c : ScalarConstraint α) (wrt : Option (List (Variable α))),
      Answers (c.linearInequality wrt).outcome ∧ Answers (c.linearEquality wrt).outcome) ∧
    (∀ a b : ScalarConstraint α, Answers (a.implies b).outcome) ∧
    (∀ m : Monomial α, m.factors.foldlM Monomial.timesFactor (.constant m.coefficient) =
      some (.ofFactors m.coefficient m.mergedFactors)) ∧
    (∀ ms : List (Monomial α), ms.foldlM Polynomial.addTermAt? ([], []) =
      some ((Polynomial.groups ms).map (·.1), (Polynomial.groups ms).map (·.2))) ∧
    ∀ (ms : List (Monomial α)) (ordering : List (Variable α)),
      ms.foldlM (addCoefficientAt ordering) (List.replicate ordering.length 0) =
        Attempt.checked (coefficientRow ms ordering) ∧
      ∀ row, coefficientRow ms ordering = .ok row → row.length = ordering.length := by
  refine ⟨fun c => c.ensures.answers, fun l r sense => (l.ensures_compare r sense).answers,
    fun e wrt => (e.ensures_linearCoefficients wrt).answers,
    fun c p => (c.ensures_evaluate p).answers, fun c => c.ensures_simplified.answers,
    fun c wrt => ⟨?_, ?_, ?_⟩, fun c wrt => ⟨?_, ?_⟩, fun a b => (a.ensures_implies b).answers,
    Monomial.foldlM_timesFactor, Polynomial.foldlM_addTermAt?,
    fun ms ordering => ⟨foldlM_addCoefficientAt ms ordering, fun _ => length_of_coefficientRow⟩⟩
  · exact (c.ensures_linearRepresentation wrt).answers
  · exact (c.ensures_linearInequality wrt).answers
  · exact (c.ensures_linearEquality wrt).answers
  · exact (c.ensures_linearInequality wrt).answers
  · exact (c.ensures_linearEquality wrt).answers

/-- Transposing a matrix that stores too few entries would read past them, and is refused. -/
example :
    let m : Matrix ℤ := ⟨2, 2, [1, 2, 3]⟩
    m.transposed = none ∧ (Call.transpose (.matrix .constant m)).outcome =
      Attempt.refuse (.invalidOperand .transpose .left (.raggedRow 1 2 1)) :=
  ⟨rfl, rfl⟩

end DecisionAlgebra
