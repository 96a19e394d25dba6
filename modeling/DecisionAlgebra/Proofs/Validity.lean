import DecisionAlgebra.Calculus.Power
import DecisionAlgebra.Constraint.Comparison
import DecisionAlgebra.Linear.Split
import DecisionAlgebra.Proofs.Closure
import DecisionAlgebra.Proofs.Constraints

/-!
# Results pass their checks

Whatever its operands are, valid or not, an operation on expressions checks them first. So it reads
nothing outside of them, and what it ends with passes its check and has the shape that the operation
prescribes. There is one lemma for each operation, and `Call` collects the operations whose value is
an expression. Comparison gives constraints, which stay valid when they are simplified. The numbers
may be any numbers: no law of arithmetic is used.
-/

namespace DecisionAlgebra

open Attempt (Ensures)

variable {α : Type} {P : VariableId → Prop}

namespace Expression

variable [One α]

/-! ## Checked operands -/

theorem ensures_checkOperand (op : Operation) (side : Side) (e : Expression α) :
    Ensures (e.checkOperand op side).outcome
      fun _ => e.FactorsIn fun id => id.isDefined = true := by
  unfold checkOperand
  split
  next h => exact Attempt.ensures_ok (check_eq_ok.mp h)
  next => exact Traced.ensures_emit_bind (Attempt.ensures_refuse _)

theorem ensures_checkOperands (op : Operation) (l r : Expression α) :
    Ensures (checkOperands op l r).outcome fun _ =>
      l.FactorsIn (fun id => id.isDefined = true) ∧
        r.FactorsIn fun id => id.isDefined = true := by
  refine Traced.ensures_bind (ensures_checkOperand op .left l) fun _ hl => ?_
  exact (ensures_checkOperand op .right r).mono fun _ hr => ⟨hl, hr⟩

/-- What ends with a value after checking two operands has valid ones. -/
theorem factorsIn_of_checkOperands {β : Type} {op : Operation} {l r : Expression α}
    {f : Unit → Traced β} {b : β} (h : (checkOperands op l r >>= f).outcome = .ok b) :
    l.FactorsIn (fun id => id.isDefined = true) ∧ r.FactorsIn fun id => id.isDefined = true := by
  rw [Traced.outcome_bind, unit_bind_eq_ok] at h
  exact (ensures_checkOperands op l r).value () h.1

/-! ## Values -/

omit [One α] in
theorem check_variable_eq_ok {v : Variable α} :
    (Expression.scalar (.«variable» v)).check = .ok () ↔ v.id.isDefined = true :=
  Monomial.checkVariable_eq_ok

omit [One α] in
/-- A transposed expression is there exactly when the check passes and every entry is found. -/
theorem transpose_eq_ok {e t : Expression α} :
    e.transpose.outcome = .ok t ↔ e.check = .ok () ∧ e.transposed = some t := by
  rw [transpose, Traced.outcome_bind, unit_bind_eq_ok, checkOperand_eq_ok, Traced.outcome_quiet,
    Attempt.read_eq_ok]

/-- A product with a scalar on the right is the typed grid of the products of the elements. -/
theorem outcome_multiply_scalar [Zero α] [Add α] [Mul α] [BEq α] {e : Expression α} {c : Scalar α}
    {g : Grid α} (he : e.check = .ok ()) (hc : (scalar c).check = .ok ())
    (hg : (Grid.ofExpression e).mapM? (·.times c) = some g) :
    (e.multiply (.scalar c)).outcome = Attempt.checked g.toExpression := by
  rw [multiply, Traced.outcome_bind, checkOperands_eq_ok.mpr ⟨he, hc⟩]
  show (ite _ _ _ : Traced (Expression α)).outcome = _
  rw [if_pos (Bool.or_eq_true_iff.mpr (.inr (isScalar_iff.mpr rfl)))]
  exact (Grid.fits_ofExpression (check_eq_ok.mp he).length_eq).combine_scalar hg .multiply

/-- A derivative is the typed grid of the derivatives of the elements. -/
theorem derivativeBy_eq_ok [Zero α] [NatCast α] [Mul α] {e d : Expression α} {v : Variable α} :
    (e.derivativeBy v).outcome = .ok d ↔ e.check = .ok () ∧ v.id.isDefined = true ∧
      ((Grid.ofExpression e).map (·.derivative v)).toExpression = .ok d := by
  simp only [derivativeBy, Traced.outcome_bind, unit_bind_eq_ok, checkOperand_eq_ok,
    check_variable_eq_ok, Traced.outcome_quiet, Attempt.checked_eq_ok]

/-- An expression that passes its check has a derivative by every defined variable, that of every
element in its place. -/
theorem exists_derivativeBy [Zero α] [NatCast α] [Mul α] {e : Expression α} {v : Variable α}
    (he : e.check = .ok ()) (hv : v.id.isDefined = true) :
    ∃ d, (e.derivativeBy v).outcome = .ok d ∧
      ((Grid.ofExpression e).map (·.derivative v)).IsTyped d := by
  have hfits := (Grid.fits_ofExpression (check_eq_ok.mp he).length_eq).map (·.derivative v)
  obtain ⟨d, hd, htyped⟩ := Grid.exists_toExpression hfits
  exact ⟨d, derivativeBy_eq_ok.mpr ⟨he, hv, hd⟩, htyped⟩

/-- What a replacement ends with is the typed grid of the elements with the variable replaced. -/
theorem substitute_eq_ok [Zero α] [Add α] [Mul α] [BEq α] {e t replacement : Expression α}
    {v : Variable α} :
    (e.substitute v replacement).outcome = .ok t ↔
      e.check = .ok () ∧ v.id.isDefined = true ∧ replacement.check = .ok () ∧
        ∃ r g, replacement = .scalar r ∧
          (Grid.ofExpression e).mapM? (·.substitute v r) = some g ∧ g.toExpression = .ok t := by
  simp only [substitute, Traced.outcome_bind, unit_bind_eq_ok, checkOperand_eq_ok,
    check_variable_eq_ok]
  refine and_congr_right' (and_congr_right' (and_congr_right' ?_))
  cases replacement with
  | scalar r =>
    have hread : Attempt.read ((Grid.ofExpression e).mapM? (·.substitute v r)) >>=
        (fun g => Attempt.checked g.toExpression) = .ok t ↔
          ∃ g, (Grid.ofExpression e).mapM? (·.substitute v r) = some g ∧
            g.toExpression = .ok t := by
      simp only [bind_eq_ok, Attempt.read_eq_ok, Attempt.checked_eq_ok]
    refine hread.trans ⟨fun h => ?_, fun h => ?_⟩
    · obtain ⟨g, hg⟩ := h
      exact ⟨r, g, rfl, hg⟩
    · obtain ⟨_, g, hr, hg⟩ := h
      cases hr
      exact ⟨g, hg⟩
  | vector | matrix => exact ⟨fun h => absurd h Attempt.refuse_ne_ok, fun h => by simp at h⟩

omit [One α] in
theorem powerExponent_eq_ok {n : Int} {k : Nat} :
    powerExponent n = .ok k ↔ n = k ∧ k ≤ maxExponent := by
  unfold powerExponent
  split
  next hneg => exact ⟨nofun, fun h => by omega⟩
  next hneg =>
    split
    next hle =>
      rw [Except.ok.injEq]
      exact ⟨fun h => by omega, fun h => by omega⟩
    next hgt => exact ⟨nofun, fun h => by omega⟩

/-- A power is there exactly for a valid scalar and an exponent in range. -/
theorem power_eq_ok [Mul α] {e q : Expression α} {n : Int} :
    (e.power n).outcome = .ok q ↔ e.check = .ok () ∧
      ∃ (s : Scalar α) (k : Nat) (t : Scalar α), e = .scalar s ∧ (n = k ∧ k ≤ maxExponent) ∧
        s.power k = some t ∧ .scalar t = q := by
  simp only [← powerExponent_eq_ok]
  simp only [power, Traced.outcome_bind, unit_bind_eq_ok, checkOperand_eq_ok]
  refine and_congr_right' ?_
  cases e with
  | scalar s =>
    have hread : (Attempt.checked (powerExponent n) >>= fun k =>
        Attempt.read (s.power k) >>= fun t => pure (scalar t)) = .ok q ↔
          ∃ k t, powerExponent n = .ok k ∧ s.power k = some t ∧ .scalar t = q := by
      simp only [bind_eq_ok, Attempt.read_eq_ok, Attempt.checked_eq_ok, pure_eq_ok,
        exists_and_left]
    refine hread.trans ⟨fun h => ?_, fun h => ?_⟩
    · obtain ⟨k, t, h⟩ := h
      exact ⟨s, k, t, rfl, h⟩
    · obtain ⟨_, k, t, hs, h⟩ := h
      cases hs
      exact ⟨k, t, h⟩
  | vector | matrix => exact ⟨fun h => absurd h Attempt.refuse_ne_ok, fun h => by simp at h⟩

/-! ## Operations -/

theorem ensures_plus [Add α] (l r : Expression α) :
    Ensures (l.plus r).outcome fun e => e.check = .ok () ∧ CommonDims l r e.dims := by
  refine Traced.ensures_bind (ensures_checkOperands .plus l r) fun _ hlr => ?_
  refine (ensures_combine_plus hlr.1 (Grid.factorsIn_ofExpression hlr.2)).mono fun e he => ?_
  exact ⟨check_eq_ok.mpr he.2, commonDims_of_combines he.1⟩

theorem ensures_minus [Add α] [Neg α] [Mul α] (l r : Expression α) :
    Ensures (l.minus r).outcome fun e => e.check = .ok () ∧ CommonDims l r e.dims := by
  refine Traced.ensures_bind (ensures_checkOperands .minus l r) fun _ hlr => ?_
  obtain ⟨g, hg, hgin⟩ := exists_negated hlr.2
  refine Traced.ensures_read_bind hg ((ensures_combine_plus hlr.1 hgin).mono fun e he => ?_)
  exact ⟨check_eq_ok.mpr he.2, commonDims_of_combines (he.1.mapM?_right hg)⟩

theorem ensures_multiply [Zero α] [Add α] [Mul α] [BEq α] (l r : Expression α) :
    Ensures (l.multiply r).outcome fun e => e.check = .ok () ∧
      if l.isScalar || r.isScalar then CommonDims l r e.dims
      else l.dims.cols = r.dims.rows ∧ e.dims = ⟨l.dims.rows, r.dims.cols⟩ := by
  refine Traced.ensures_bind (ensures_checkOperands .multiply l r) fun _ hlr => ?_
  split
  next hscalar =>
    refine (ensures_combine_times hlr.1 hlr.2).mono fun e he => ?_
    exact ⟨check_eq_ok.mpr he.2, commonDims_of_combines he.1⟩
  next hscalar =>
    refine (ensures_matrixProduct hlr.1 hlr.2).mono fun e he => ?_
    exact ⟨check_eq_ok.mpr he.2, he.1⟩

theorem ensures_transpose (e : Expression α) :
    Ensures e.transpose.outcome fun t => t.check = .ok () ∧ t.dims = e.dims.transposed := by
  refine Traced.ensures_bind (ensures_checkOperand .transpose .left e) fun _ he => ?_
  obtain ⟨t, ht, hdims, hin⟩ := exists_transposed he
  exact Attempt.ensures_read ht ⟨check_eq_ok.mpr hin, hdims⟩

theorem ensures_simplify [Zero α] [Add α] [BEq α] (e : Expression α) :
    Ensures e.simplify.outcome fun s => s.check = .ok () ∧ s.dims = e.dims := by
  refine Traced.ensures_checked_bind fun _ he => ?_
  refine Traced.ensures_bind (Traced.ensures_forM_emit e.simplifyEvents) fun _ _ => ?_
  exact Attempt.ensures_ok ⟨check_eq_ok.mpr (check_eq_ok.mp he).simplified, e.dims_simplified⟩

theorem ensures_derivativeBy [Zero α] [NatCast α] [Mul α] (e : Expression α) (v : Variable α) :
    Ensures (e.derivativeBy v).outcome fun d => d.check = .ok () ∧ d.dims = e.dims := by
  refine Traced.ensures_bind (ensures_checkOperand .derivative .left e) fun _ he => ?_
  refine Traced.ensures_bind (ensures_checkOperand .derivative .right _) fun _ _ => ?_
  have hgrid := (Grid.factorsIn_ofExpression he).map fun s hs => hs.derivative v
  exact hgrid.ensures_toExpression.mono fun d hd => ⟨check_eq_ok.mpr hd.2, hd.1⟩

theorem ensures_substitute [Zero α] [Add α] [Mul α] [BEq α] (e : Expression α) (v : Variable α)
    (replacement : Expression α) :
    Ensures (e.substitute v replacement).outcome fun t => t.check = .ok () ∧ t.dims = e.dims := by
  refine Traced.ensures_bind (ensures_checkOperand .substitute .left e) fun _ he => ?_
  refine Traced.ensures_bind (ensures_checkOperand .substitute .right _) fun _ _ => ?_
  refine Traced.ensures_bind (ensures_checkOperand .substitute .right _) fun _ hr => ?_
  cases replacement with
  | scalar r =>
    have hstep : ∀ s : Scalar α, s.FactorsIn (fun id => id.isDefined = true) →
        ∃ t, s.substitute v r = some t ∧ t.FactorsIn fun id => id.isDefined = true :=
      fun s hs => Scalar.exists_substitute (hs.mono fun _ => .inr) (factorsIn_scalar.mp hr)
    obtain ⟨g, hg, hshape, hgin⟩ := (Grid.factorsIn_ofExpression he).exists_mapM? hstep
    refine Attempt.ensures_read_bind hg (hgin.ensures_toExpression.mono fun t ht => ?_)
    exact ⟨check_eq_ok.mpr ht.2, ht.1.trans hshape⟩
  | vector k c => exact Attempt.ensures_refuse _
  | matrix k m => exact Attempt.ensures_refuse _

theorem ensures_power [Mul α] (e : Expression α) (n : Int) :
    Ensures (e.power n).outcome fun s => s.check = .ok () ∧ s.dims = .scalar := by
  refine Traced.ensures_bind (ensures_checkOperand .power .left e) fun _ he => ?_
  cases e with
  | scalar s =>
    refine Attempt.ensures_checked_bind fun n _ => ?_
    obtain ⟨t, ht, hin⟩ := Scalar.exists_power (factorsIn_scalar.mp he) n
    refine Attempt.ensures_read_bind ht (Attempt.ensures_ok ⟨?_, rfl⟩)
    exact check_eq_ok.mpr (factorsIn_scalar.mpr hin)
  | vector k c => exact Attempt.ensures_refuse _
  | matrix k m => exact Attempt.ensures_refuse _

theorem ensures_evaluate [Zero α] [Add α] [Neg α] [Mul α] (e : Expression α) (p : Point α) :
    Ensures (Attempt.checked (e.evaluate p)) fun v => v.check = .ok () ∧ v.dims = e.dims := by
  refine Attempt.ensures_checked fun v hv => ?_
  have he : e.check = .ok () := (unit_bind_eq_ok.mp hv).1
  obtain ⟨hdims, hin⟩ := (check_eq_ok.mp he).of_evaluate hv
  exact ⟨check_eq_ok.mpr (hin.mono fun _ => False.elim), hdims⟩

end Expression

/-! ## Calls -/

/-- A call of an operation whose value is an expression, with its operands. -/
inductive Call (α : Type) where
  | plus (l r : Expression α)
  | minus (l r : Expression α)
  | multiply (l r : Expression α)
  | transpose (e : Expression α)
  | simplify (e : Expression α)
  | derivativeBy (e : Expression α) (v : Variable α)
  | substitute (e : Expression α) (v : Variable α) (replacement : Expression α)
  | power (e : Expression α) (n : Int)
  | evaluate (e : Expression α) (p : Point α)

namespace Call

/-- How the call ends. -/
def outcome [Zero α] [One α] [NatCast α] [Add α] [Neg α] [Mul α] [BEq α] :
    Call α → Outcome (Expression α)
  | plus l r => (l.plus r).outcome
  | minus l r => (l.minus r).outcome
  | multiply l r => (l.multiply r).outcome
  | transpose e => e.transpose.outcome
  | simplify e => e.simplify.outcome
  | derivativeBy e v => (e.derivativeBy v).outcome
  | substitute e v replacement => (e.substitute v replacement).outcome
  | power e n => (e.power n).outcome
  | evaluate e p => Attempt.checked (e.evaluate p)

/-- The shape that the operation prescribes for its value: that of every operand that is no scalar,
where it works element by element; the rows of the left and the columns of the right operand of a
matrix product. -/
def Prescribes : Call α → Shape → Prop
  | plus l r, s => l.CommonDims r s
  | minus l r, s => l.CommonDims r s
  | multiply l r, s =>
    if l.isScalar || r.isScalar then l.CommonDims r s
    else l.dims.cols = r.dims.rows ∧ s = ⟨l.dims.rows, r.dims.cols⟩
  | transpose e, s => s = e.dims.transposed
  | simplify e, s => s = e.dims
  | derivativeBy e _, s => s = e.dims
  | substitute e _ _, s => s = e.dims
  | power _ _, s => s = .scalar
  | evaluate e _, s => s = e.dims

variable [Zero α] [One α] [NatCast α] [Add α] [Neg α] [Mul α] [BEq α]

theorem ensures (c : Call α) :
    Ensures c.outcome fun e => e.check = .ok () ∧ c.Prescribes e.dims := by
  cases c with
  | plus l r => exact l.ensures_plus r
  | minus l r => exact l.ensures_minus r
  | multiply l r => exact l.ensures_multiply r
  | transpose e => exact e.ensures_transpose
  | simplify e => exact e.ensures_simplify
  | derivativeBy e v => exact e.ensures_derivativeBy v
  | substitute e v replacement => exact e.ensures_substitute v replacement
  | power e n => exact e.ensures_power n
  | evaluate e p => exact e.ensures_evaluate p

end Call

/-! ## Split constraints -/

namespace ScalarConstraint

variable [Zero α] [One α] [Add α] [Neg α] [Mul α] [BEq α]

theorem FactorsIn.split {c : ScalarConstraint α} (hc : c.FactorsIn P) :
    (Scalar.polynomial c.split.1).FactorsIn P := by
  have hterms : ∀ m ∈ c.left.toMonomials ++ c.right.toMonomials.map (·.scaled (-1)),
      m.FactorsIn P := by
    intro m hm
    rcases List.mem_append.mp hm with h | h
    · exact hc.left.each m h
    · obtain ⟨n, hn, rfl⟩ := List.mem_map.mp h
      exact (hc.right.each n hn).scaled _
  have hdifference : TermsIn P c.difference.monomials :=
    Polynomial.termsIn_simplified fun m hm => (hterms m hm).normalized
  exact Polynomial.termsIn_withoutConstant hdifference.each

end ScalarConstraint

namespace Expression

variable [One α]

theorem factorsIn_vector {k : Kind} {c : Column (k.Entry α)} (hne : c.entries ≠ [])
    (h : ∀ x ∈ c.entries, (Scalar.ofEntry k x).FactorsIn P) : (vector k c).FactorsIn P :=
  ⟨length_elements_vector k c, fun hnil => hne (List.map_eq_nil_iff.mp hnil),
    List.forall_mem_map.mpr h⟩

theorem factorsIn_matrix {k : Kind} {m : Matrix (k.Entry α)}
    (hlen : m.entries.length = m.rows * m.cols) (hne : m.entries ≠ [])
    (h : ∀ x ∈ m.entries, (Scalar.ofEntry k x).FactorsIn P) : (matrix k m).FactorsIn P :=
  ⟨(List.length_map _).trans hlen, fun hnil => hne (List.map_eq_nil_iff.mp hnil),
    List.forall_mem_map.mpr h⟩

end Expression

namespace Constraint

variable [Zero α] [One α] [Add α] [Neg α] [Mul α] [BEq α]

/-- A valid constraint over a shape that is not empty stays valid when it is simplified. One over a
vector needs a single column, because its simplified sides are columns. -/
theorem exists_simplified {c : Constraint α} (hc : c.check = .ok ())
    (hcols : c.form = .vector → c.shape.cols = 1) (hpos : 0 < c.shape.size) :
    ∃ s, c.simplified = .ok s ∧ s.check = .ok () := by
  obtain ⟨cs, hcs, hlen, hin⟩ := exists_elements hc
  have hne : cs ≠ [] := List.length_pos_iff.mp (hlen ▸ hpos)
  have hlefts : ∀ p ∈ cs.map (·.split.1),
      (Scalar.polynomial p).FactorsIn fun id => id.isDefined = true := by
    intro p hp
    obtain ⟨d, hd, rfl⟩ := List.mem_map.mp hp
    exact (hin d hd).split
  have hrights : ∀ x ∈ cs.map (·.split.2),
      (Scalar.constant x).FactorsIn fun id => id.isDefined = true :=
    fun x _ => Scalar.factorsIn_constant x
  have hleftsLen : (cs.map (·.split.1)).length = c.shape.size := (List.length_map _).trans hlen
  have hrightsLen : (cs.map (·.split.2)).length = c.shape.size := (List.length_map _).trans hlen
  have hleftsNe : cs.map (·.split.1) ≠ [] := fun h => hne (List.map_eq_nil_iff.mp h)
  have hrightsNe : cs.map (·.split.2) ≠ [] := fun h => hne (List.map_eq_nil_iff.mp h)
  cases c with
  | scalar c =>
    have hin := ScalarConstraint.check_eq_ok.mp hc
    have hsimplified : c.simplified = .ok ⟨.polynomial c.split.1, c.sense, .constant c.split.2⟩ :=
      unit_bind_eq_ok.mpr ⟨hc, rfl⟩
    refine ⟨.scalar ⟨.polynomial c.split.1, c.sense, .constant c.split.2⟩, ?_, ?_⟩
    · rw [simplified, hc, hcs]
      show Attempt.checked c.simplified >>= _ = _
      rw [hsimplified]
      rfl
    · exact ScalarConstraint.check_eq_ok.mpr ⟨hin.split, Scalar.factorsIn_constant _⟩
  | vector c =>
    refine ⟨_, by rw [simplified, hc, hcs]; rfl, ?_⟩
    have hdims : ∀ n, n = c.shape.size → Shape.column n = c.shape := by
      intro n hn
      have hone : c.shape.cols = 1 := hcols rfl
      rw [hn, Shape.size, hone, Nat.mul_one, Shape.column, ← hone]
    refine gridCheck_eq_ok.mpr ⟨Expression.factorsIn_vector hleftsNe hlefts,
      Expression.factorsIn_vector hrightsNe hrights, ?_, ?_⟩
    · exact decide_eq_true (hdims _ hleftsLen)
    · exact decide_eq_true (hdims _ hrightsLen)
  | matrix c =>
    refine ⟨_, by rw [simplified, hc, hcs]; rfl, ?_⟩
    exact gridCheck_eq_ok.mpr ⟨Expression.factorsIn_matrix hleftsLen hleftsNe hlefts,
      Expression.factorsIn_matrix hrightsLen hrightsNe hrights, decide_eq_true rfl,
      decide_eq_true rfl⟩

end Constraint

/-! ## Comparisons -/

namespace Expression

variable [Zero α] [One α] [Add α] [Neg α] [Mul α] [BEq α]

omit [Zero α] [One α] [Add α] [Neg α] [Mul α] [BEq α] in
/-- Only scalars have a constraint between scalars. -/
theorem constraintOf_scalar {l r : Expression α} {sense : Sense} {shape : Shape} {c : Constraint α}
    (h : l.constraintOf r sense .scalar shape = .ok c) :
    ∃ a b, l = .scalar a ∧ r = .scalar b ∧ c = .scalar ⟨a, sense, b⟩ := by
  unfold constraintOf at h
  split at h
  next hform => cases hform
  next hform => cases hform
  next =>
    split at h
    next a b => exact ⟨a, b, rfl, rfl, (Except.ok.inj h).symm⟩
    next => cases h

theorem ensures_compare (l r : Expression α) (sense : Sense) :
    Ensures (l.compare r sense).outcome fun c => c.check = .ok () ∧ CommonDims l r c.shape ∧
      ∃ s, c.simplified = .ok s ∧ s.check = .ok () := by
  refine Traced.ensures_bind (ensures_checkOperands .comparison l r) fun _ hlr => ?_
  obtain ⟨hl, hr⟩ := hlr
  refine Traced.ensures_bind (Grid.ensures_layout (Grid.fits_ofExpression hl.length_eq)
    (Grid.fits_ofExpression hr.length_eq)) fun fs hlayout => ?_
  obtain ⟨form, shape⟩ := fs
  refine Attempt.ensures_checked fun c hc => ?_
  have hdims : CommonDims l r shape :=
    commonDims_of_eq hlayout.shape_eq hlayout.left hlayout.right
  have hpos : 0 < shape.size := by
    rw [show shape = _ from hlayout.shape_eq]
    split
    next => exact size_pos hr
    next => exact size_pos hl
  -- a recorded shape that both sides fit makes a valid constraint, which can be simplified
  suffices h : c.check = .ok () ∧ c.shape = shape ∧ (c.form = .vector → c.shape.cols = 1) by
    obtain ⟨hcheck, hshape, hcols⟩ := h
    exact ⟨hcheck, hshape ▸ hdims, Constraint.exists_simplified hcheck hcols (hshape ▸ hpos)⟩
  have hgrid : ∀ {mismatch}, GridConstraint.check mismatch ⟨l, r, sense, shape⟩ = .ok () :=
    Constraint.gridCheck_eq_ok.mpr
      ⟨hl, hr, Constraint.fits_iff.mpr hlayout.left, Constraint.fits_iff.mpr hlayout.right⟩
  cases form with
  | vector =>
    cases hc
    exact ⟨hgrid, rfl, fun _ => hlayout.cols_vector rfl⟩
  | matrix =>
    cases hc
    exact ⟨hgrid, rfl, nofun⟩
  | scalar =>
    obtain ⟨a, b, rfl, rfl, rfl⟩ := constraintOf_scalar hc
    exact ⟨ScalarConstraint.check_eq_ok.mpr ⟨factorsIn_scalar.mp hl, factorsIn_scalar.mp hr⟩,
      (hlayout.shape_scalar rfl).symm, nofun⟩

end Expression

section Closed

variable [Zero α] [One α] [NatCast α] [Add α] [Neg α] [Mul α] [BEq α]

/-- **Validity is closed under the algebra.** Whatever the operands are, valid or not: where an
operation ends with an expression, that passes its check and has the shape that the operation
prescribes. Where a comparison ends with a constraint, that passes its check before and after it is
simplified, and the shape that it records is the common one of its sides. -/
theorem Call.check_of_outcome :
    (∀ (c : Call α) (e : Expression α), c.outcome = .ok e →
      e.check = .ok () ∧ c.Prescribes e.dims) ∧
    ∀ (l r : Expression α) (sense : Sense) (c : Constraint α),
      (l.compare r sense).outcome = .ok c →
        c.check = .ok () ∧ l.CommonDims r c.shape ∧ ∃ s, c.simplified = .ok s ∧ s.check = .ok () :=
  ⟨fun c => c.ensures.value, fun l r sense => (l.ensures_compare r sense).value⟩

end Closed

/-- A row of `2 x x` and `3 y ^ 0` times a column of `x` and `y` is a scalar, and the row compared
with a number is a constraint over its two columns. -/
theorem Call.check_of_outcome_row :
    let x : Variable ℤ := .numbered 0
    let y : Variable ℤ := .numbered 1
    let l : Expression ℤ := .matrix .monomial ⟨1, 2, [⟨2, [x, x], [1, 1]⟩, ⟨3, [y], [0]⟩]⟩
    let r : Expression ℤ := .vector .variable ⟨[x, y]⟩
    (∃ e, (Call.multiply l r).outcome = .ok e ∧ e.check = .ok () ∧ e.dims = ⟨1, 1⟩) ∧
      ∃ c, (l.compare (.constant 4) .lessEqual).outcome = .ok c ∧ c.check = .ok () ∧
        c.shape = ⟨1, 2⟩ := by
  intro x y l r
  obtain ⟨hcalls, hcomparisons⟩ := @Call.check_of_outcome ℤ _ _ _ _ _ _ _
  have hproduct : (Call.multiply l r).outcome =
      .ok (.scalar (.polynomial ⟨[⟨2, [x], [3]⟩, ⟨3, [y], [1]⟩]⟩)) := rfl
  have hcompare : (l.compare (.constant 4) .lessEqual).outcome =
      .ok (.matrix ⟨l, .constant 4, .lessEqual, ⟨1, 2⟩⟩) := by cbv
  obtain ⟨hcheck, -, hdims⟩ := hcalls _ _ hproduct
  exact ⟨⟨_, hproduct, hcheck, hdims⟩, _, hcompare, (hcomparisons _ _ _ _ hcompare).1, rfl⟩

end DecisionAlgebra
