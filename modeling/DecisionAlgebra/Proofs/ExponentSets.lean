import DecisionAlgebra.Proofs.Derivative
import DecisionAlgebra.Proofs.Simplification
import DecisionAlgebra.Proofs.Substitution
import Mathlib.Algebra.Group.Pointwise.Set.Basic

/-!
# Which exponents are written

The exponent maps of the terms of an expression are a set, in which coefficients, order and kind are
forgotten. Terms do not cancel until they are simplified, so the operations act on these sets
without regard to the numbers: a sum has the exponents of both operands, a product the sums of one
of each, a power the sums of as many as its exponent. Simplifying keeps no exponents that were not
there, and may put in those of a zero. The totals are words and are added as words, so none of this
needs them to be small.
-/

namespace DecisionAlgebra

open scoped Pointwise

variable {α : Type} {P : VariableId → Prop}

/-! ## Terms -/

/-- The exponent maps of a list of terms. -/
def termExponents (ms : List (Monomial α)) : Set (VariableId →₀ UInt32) :=
  {x | x ∈ ms.map Monomial.exponentMap}

theorem mem_termExponents {ms : List (Monomial α)} {x : VariableId →₀ UInt32} :
    x ∈ termExponents ms ↔ ∃ m ∈ ms, m.exponentMap = x :=
  List.mem_map

theorem termExponents_singleton (m : Monomial α) : termExponents [m] = {m.exponentMap} := by
  ext x
  simp [mem_termExponents, eq_comm]

theorem termExponents_append (ms ns : List (Monomial α)) :
    termExponents (ms ++ ns) = termExponents ms ∪ termExponents ns := by
  ext x
  simp [mem_termExponents, or_and_right, exists_or]

/-- The products of the pairs of terms have the sums of their exponents. -/
theorem AreProducts.exponents_eq [Mul α] {ls rs ms : List (Monomial α)}
    (h : AreProducts ls rs ms) : termExponents ms = termExponents ls + termExponents rs := by
  have hmap : ms.map Monomial.exponentMap =
      (ls ×ˢ rs).map fun lr => lr.1.exponentMap + lr.2.exponentMap :=
    map_eq_map_of_forall₂ (h.imp fun _ _ hm => hm.exponentMap_eq)
  ext x
  have hpairs : x ∈ termExponents ms ↔
      ∃ lr ∈ ls ×ˢ rs, lr.1.exponentMap + lr.2.exponentMap = x := by
    rw [termExponents, hmap]
    exact List.mem_map
  rw [hpairs, Set.mem_add]
  constructor
  · intro hx
    obtain ⟨lr, hlr, rfl⟩ := hx
    obtain ⟨hl, hr⟩ := List.mem_product.mp hlr
    exact ⟨_, mem_termExponents.mpr ⟨_, hl, rfl⟩, _, mem_termExponents.mpr ⟨_, hr, rfl⟩, rfl⟩
  · intro hx
    obtain ⟨y, hy, z, hz, rfl⟩ := hx
    obtain ⟨l, hl, hly⟩ := mem_termExponents.mp hy
    obtain ⟨r, hr, hrz⟩ := mem_termExponents.mp hz
    exact ⟨(l, r), List.mem_product.mpr ⟨hl, hr⟩, congrArg₂ (· + ·) hly hrz⟩

/-! ## Scalars -/

/-- The exponent maps of the terms of a scalar. -/
def Scalar.exponents [One α] (s : Scalar α) : Set (VariableId →₀ UInt32) :=
  termExponents s.toMonomials

/-- The exponent maps of the terms of all scalars in a list. -/
def listedExponents [One α] (ss : List (Scalar α)) : Set (VariableId →₀ UInt32) :=
  {x | ∃ s ∈ ss, x ∈ s.exponents}

theorem listedExponents_singleton [One α] (s : Scalar α) : listedExponents [s] = s.exponents := by
  ext x
  simp [listedExponents]

namespace Scalar

variable [One α]

theorem exponents_constant (c : α) : (constant c).exponents = {0} :=
  termExponents_singleton _

/-- Exponents are read off the terms. -/
theorem exponents_congr {s t : Scalar α} (h : t.toMonomials = s.toMonomials) :
    t.exponents = s.exponents := congrArg termExponents h

theorem exponents_monomial (m : Monomial α) : (monomial m).exponents = {m.exponentMap} :=
  termExponents_singleton m

/-- A sum has the exponents of both summands, also where two like terms become one. -/
theorem exponents_plus [Add α] (l r : Scalar α) :
    (l.plus r).exponents = l.exponents ∪ r.exponents := by
  rw [exponents, exponents, exponents]
  rcases toMonomials_plus l r with h | ⟨a, b, ha, hb, hexp, h⟩
  · rw [h, termExponents_append]
  · rw [h, ha, hb, termExponents_singleton, termExponents_singleton, termExponents_singleton,
      Monomial.exponentMap_withCoefficient, hexp, Set.union_self]

theorem exponents_times [Mul α] {l r s : Scalar α} (hl : l.FactorsIn P) (hr : r.FactorsIn P)
    (h : l.times r = some s) : s.exponents = l.exponents + r.exponents := by
  obtain ⟨t, ht, -, hprod⟩ := exists_times hl hr
  obtain rfl : t = s := Option.some.inj (ht.symm.trans h)
  exact hprod.exponents_eq

theorem exponents_negated [Neg α] [Mul α] {s t : Scalar α} (hs : s.FactorsIn P)
    (h : s.negated = some t) : t.exponents = s.exponents := by
  rw [exponents_times hs (factorsIn_constant (-1)) h, exponents_constant, Set.add_singleton]
  simp

theorem exponents_timesPower [Mul α] {base : Scalar α} (hbase : base.FactorsIn P) (n : Nat) :
    ∀ {result s : Scalar α}, result.FactorsIn P → base.timesPower n result = some s →
      s.exponents = result.exponents + n • base.exponents := by
  induction n with
  | zero =>
    intro result s _ h
    cases h
    rw [zero_nsmul, add_zero]
  | succ n ih =>
    intro result s hresult h
    obtain ⟨next, hnext, hin, -⟩ := exists_times hresult hbase
    rw [timesPower, hnext] at h
    rw [ih hin h, exponents_times hresult hbase hnext, succ_nsmul', add_assoc]

/-- A power has the sums of as many exponents of the base as its exponent says. -/
theorem exponents_power [Mul α] {base s : Scalar α} (hbase : base.FactorsIn P) {n : Nat}
    (h : base.power n = some s) : s.exponents = n • base.exponents := by
  rw [exponents_timesPower hbase n (factorsIn_constant 1) h, exponents_constant]
  exact zero_add _

/-- Simplifying writes no exponents that were not there, except those of a zero. -/
theorem exponents_simplified_subset [Zero α] [Add α] [BEq α] (s : Scalar α) :
    s.simplified.exponents ⊆ insert 0 s.exponents := by
  cases s with
  | constant c => exact Set.subset_insert _ _
  | «variable» v => exact Set.subset_insert _ _
  | monomial m =>
    rw [simplified, exponents_monomial, exponents_monomial, Monomial.exponentMap_normalized]
    exact Set.subset_insert _ _
  | polynomial p =>
    intro x hx
    obtain ⟨m, hm, rfl⟩ := mem_termExponents.mp hx
    rcases Polynomial.mem_simplified hm with rfl | ⟨-, n, hn, hexp⟩
    · exact .inl rfl
    · exact .inr (mem_termExponents.mpr ⟨n, hn, hexp⟩)

end Scalar

/-! ## Grids -/

section Elements

variable [One α]

namespace Grid.Combines

variable {f : Scalar α → Scalar α → Option (Scalar α)} {l r : Grid α} {e : Expression α}

variable (h : Combines f l r e) (hl : l.Fits) (hr : r.Fits) (hpos : 0 < e.dims.size)
include h hl hr hpos

/-- Where combining two elements keeps the exponents of both, so does combining the grids. -/
theorem exponents_eq_union (hf : ∀ a ∈ l.elements, ∀ b ∈ r.elements, ∀ s, f a b = some s →
      s.exponents = a.exponents ∪ b.exponents) :
    listedExponents e.elements = listedExponents l.elements ∪ listedExponents r.elements := by
  apply Set.Subset.antisymm
  · intro x hx
    obtain ⟨t, ht, hx⟩ := hx
    obtain ⟨a, ha, b, hb, s, hs, hterms⟩ := h.exists_of_mem ht
    rw [Scalar.exponents_congr hterms, hf a ha b hb s hs] at hx
    exact hx.imp (fun hxa => ⟨a, ha, hxa⟩) fun hxb => ⟨b, hb, hxb⟩
  · intro x hx
    rcases hx with ⟨a, ha, hx⟩ | ⟨b, hb, hx⟩
    · obtain ⟨b, hb, s, hs, t, ht, hterms⟩ := h.exists_of_left hl hr hpos ha
      refine ⟨t, ht, ?_⟩
      rw [Scalar.exponents_congr hterms, hf a ha b hb s hs]
      exact .inl hx
    · obtain ⟨a, ha, s, hs, t, ht, hterms⟩ := h.exists_of_right hl hr hpos hb
      refine ⟨t, ht, ?_⟩
      rw [Scalar.exponents_congr hterms, hf a ha b hb s hs]
      exact .inr hx

/-- Where combining two elements adds up their exponents, so does combining the grids, because one
of them is a scalar. -/
theorem exponents_eq_add (hscalar : l.form = .scalar ∨ r.form = .scalar)
    (hf : ∀ a ∈ l.elements, ∀ b ∈ r.elements, ∀ s, f a b = some s →
      s.exponents = a.exponents + b.exponents) :
    listedExponents e.elements = listedExponents l.elements + listedExponents r.elements := by
  apply Set.Subset.antisymm
  · intro x hx
    obtain ⟨t, ht, hx⟩ := hx
    obtain ⟨a, ha, b, hb, s, hs, hterms⟩ := h.exists_of_mem ht
    rw [Scalar.exponents_congr hterms, hf a ha b hb s hs] at hx
    obtain ⟨y, hy, z, hz, rfl⟩ := Set.mem_add.mp hx
    exact Set.add_mem_add ⟨a, ha, hy⟩ ⟨b, hb, hz⟩
  · intro x hx
    obtain ⟨y, ⟨a, ha, hy⟩, z, ⟨b, hb, hz⟩, rfl⟩ := Set.mem_add.mp hx
    obtain ⟨s, hs, t, ht, hterms⟩ := h.exists_of_scalar hl hr hpos hscalar ha hb
    refine ⟨t, ht, ?_⟩
    rw [Scalar.exponents_congr hterms, hf a ha b hb s hs]
    exact Set.add_mem_add hy hz

end Grid.Combines

end Elements

/-! ## Expressions -/

namespace Expression

variable [One α]

/-- The exponent maps of the terms of all elements. -/
def exponents (e : Expression α) : Set (VariableId →₀ UInt32) := listedExponents e.elements

theorem exponents_scalar (s : Scalar α) : (scalar s).exponents = s.exponents :=
  listedExponents_singleton s

section Operands

variable {l r e : Expression α}

/-- A sum has the exponents of both operands. -/
theorem exponents_plus [Add α] (h : (l.plus r).outcome = .ok e) :
    e.exponents = l.exponents ∪ r.exponents := by
  obtain ⟨hl, hr⟩ := factorsIn_of_checkOperands h
  obtain ⟨hcombines, hin⟩ := combines_of_plus hl hr h
  refine hcombines.exponents_eq_union (Grid.fits_ofExpression hl.length_eq)
    (Grid.fits_ofExpression hr.length_eq) (size_pos hin) fun a _ b _ s hs => ?_
  cases hs
  exact Scalar.exponents_plus a b

/-- A difference has the exponents of both operands. -/
theorem exponents_minus [Add α] [Neg α] [Mul α] (h : (l.minus r).outcome = .ok e) :
    e.exponents = l.exponents ∪ r.exponents := by
  obtain ⟨hl, hr⟩ := factorsIn_of_checkOperands h
  obtain ⟨hcombines, hin⟩ := combines_of_minus hl hr h
  refine hcombines.exponents_eq_union (Grid.fits_ofExpression hl.length_eq)
    (Grid.fits_ofExpression hr.length_eq) (size_pos hin) fun a _ b hb s hs => ?_
  obtain ⟨c, hc, hs⟩ := Option.bind_eq_some_iff.mp hs
  cases hs
  rw [Scalar.exponents_plus, Scalar.exponents_negated (hr.each b hb) hc]

/-- A product with a scalar has the sums of one exponent map of each operand. -/
theorem exponents_multiply [Zero α] [Add α] [Mul α] [BEq α]
    (h : (l.multiply r).outcome = .ok e) (hscalar : l.form = .scalar ∨ r.form = .scalar) :
    e.exponents = l.exponents + r.exponents := by
  obtain ⟨hl, hr⟩ := factorsIn_of_checkOperands h
  rw [multiply, Traced.outcome_bind, unit_bind_eq_ok] at h
  obtain ⟨-, h⟩ := h
  have hor : (l.isScalar || r.isScalar) = true := by
    rwa [Bool.or_eq_true, isScalar_iff, isScalar_iff]
  rw [if_pos hor] at h
  obtain ⟨hcombines, hin⟩ := (ensures_combine_times hl hr).value e h
  exact hcombines.exponents_eq_add (Grid.fits_ofExpression hl.length_eq)
    (Grid.fits_ofExpression hr.length_eq) (size_pos hin) hscalar
    fun a ha b hb s hs => Scalar.exponents_times (hl.each a ha) (hr.each b hb) hs

end Operands

/-! ### Operations on one expression -/

/-- Simplifying writes no exponents that were not there, except those of a zero. -/
theorem exponents_simplify_subset [Zero α] [Add α] [BEq α] {e s : Expression α}
    (h : e.simplify.outcome = .ok s) : s.exponents ⊆ insert 0 e.exponents := by
  obtain ⟨-, rfl⟩ := simplify_eq_ok.mp h
  rw [exponents, elements_simplified]
  intro x hx
  obtain ⟨t, ht, hx⟩ := hx
  obtain ⟨s, hs, rfl⟩ := List.mem_map.mp ht
  exact (Scalar.exponents_simplified_subset s hx).imp_right fun hx => ⟨s, hs, hx⟩

/-- A power has the sums of as many exponents of the base as its exponent says. -/
theorem exponents_power [Mul α] {e q : Expression α} {n : Nat} (h : (e.power n).outcome = .ok q) :
    q.exponents = n • e.exponents := by
  obtain ⟨he, s, k, t, rfl, ⟨hk, -⟩, ht, rfl⟩ := power_eq_ok.mp h
  obtain rfl : n = k := Int.ofNat.inj hk
  rw [exponents_scalar, exponents_scalar]
  exact Scalar.exponents_power (factorsIn_scalar.mp (check_eq_ok.mp he)) ht

end Expression

end DecisionAlgebra
