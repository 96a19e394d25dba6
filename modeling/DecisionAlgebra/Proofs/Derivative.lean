import DecisionAlgebra.Calculus.Derivative
import DecisionAlgebra.Proofs.Evaluation
import DecisionAlgebra.Proofs.Validity
import Mathlib.Algebra.MvPolynomial.PDeriv

/-!
# The derivative is the formal partial derivative

A term is differentiated on its normal form, where the variable has one factor: its exponent goes
down by one and comes out as a factor of the coefficient. Where the totals fit in a word, this is
Mathlib's partial derivative of the exact polynomial, whichever of the four kinds a scalar is and
whichever kind its derivative gets. What the terms of one exact map sum to is a coefficient of that
polynomial, so every such sum of the derivative is one of the expression times an exponent. A total
that has wrapped around comes out wrong.
-/

namespace DecisionAlgebra

open MvPolynomial (coeff pderiv)

variable {α : Type}

/-! ## Lowered factors -/

namespace Monomial

/-- Where the variable has one factor, lowering it takes one off its total. -/
theorem exponentSum_lowerFactor {v : Variable α} {fs : List (Variable α × UInt32)}
    (hfs : (fs.map (·.1.id)).Nodup) (hne : exponentSum Variable.id fs v.id ≠ 0) :
    exponentSum Variable.id (fs.map (lowerFactor v)) + Finsupp.single v.id 1 =
      exponentSum Variable.id fs := by
  induction fs with
  | nil => exact absurd rfl hne
  | cons f fs ih =>
    rw [List.map_cons, List.nodup_cons] at hfs
    rw [List.map_cons, exponentSum_cons, exponentSum_cons]
    by_cases hf : f.1.id = v.id
    · -- the one factor is the head, and lowering leaves the others as they are
      have hrest : fs.map (lowerFactor v) = fs := by
        refine (List.map_congr_left fun g hg => ?_).trans (List.map_id fs)
        have hne : g.1.id ≠ v.id := fun h => hfs.1 (hf ▸ h ▸ List.mem_map_of_mem hg)
        exact if_neg fun h => hne (Variable.beq_iff.mp h)
      have hhead : lowerFactor v f = (f.1, f.2 - 1) := if_pos (Variable.beq_iff.mpr hf)
      rw [hrest, hhead, add_right_comm, ← hf, ← Finsupp.single_add, sub_add_cancel]
    · have hhead : lowerFactor v f = f := if_neg fun h => hf (Variable.beq_iff.mp h)
      rw [exponentSum_cons, Finsupp.add_apply, Finsupp.single_eq_of_ne (Ne.symm hf), zero_add]
        at hne
      rw [hhead, add_assoc, ih hfs.2 hne]

theorem exponentMap_lowered {m : Monomial α} {v : Variable α} (h : m.exponentOf v ≠ 0) :
    exponentSum Variable.id ((m.normalized.factors.map (lowerFactor v)).filter (0 < ·.2)) +
      Finsupp.single v.id 1 = m.exponentMap := by
  rw [exponentSum_filter_pos, exponentSum_lowerFactor m.normal_normalized.nodup]
  · exact m.exponentMap_normalized
  · show m.normalized.exponentMap v.id ≠ 0
    rwa [exponentMap_normalized, ← exponentOf_eq]

/-- A derived term has the variable once less. -/
theorem exponentMap_derivative? [NatCast α] [Mul α] {m d : Monomial α} {v : Variable α}
    (h : m.derivative? v = some d) : d.exponentMap + Finsupp.single v.id 1 = m.exponentMap := by
  rw [derivative?] at h
  by_cases hzero : m.exponentOf v = 0
  · rw [if_pos hzero] at h
    cases h
  · rw [if_neg hzero] at h
    cases h
    rw [exponentMap_ofFactors]
    exact exponentMap_lowered hzero

/-- Lowering a factor keeps its variable. -/
theorem lowerFactor_fst (v : Variable α) (f : Variable α × UInt32) : (lowerFactor v f).1 = f.1 := by
  unfold lowerFactor
  split <;> rfl

/-- A derived term writes no variable twice, as the normal form that it is made from. -/
theorem nodup_derivative? [NatCast α] [Mul α] {m d : Monomial α} {v : Variable α}
    (h : m.derivative? v = some d) : (d.factors.map (·.1.id)).Nodup := by
  rw [derivative?] at h
  by_cases hzero : m.exponentOf v = 0
  · rw [if_pos hzero] at h
    cases h
  · rw [if_neg hzero] at h
    cases h
    have hids : (m.normalized.factors.map (lowerFactor v)).map (·.1.id) =
        m.normalized.factors.map (·.1.id) := by
      rw [List.map_map]
      exact List.map_congr_left fun f _ => congrArg Variable.id (lowerFactor_fst v f)
    rw [factors_ofFactors]
    exact (hids ▸ m.normal_normalized.nodup).sublist (List.filter_sublist.map _)

/-- There is a derived term where the total is not zero. -/
theorem exponentOf_ne_zero_of_derivative? [NatCast α] [Mul α] {m d : Monomial α} {v : Variable α}
    (h : m.derivative? v = some d) : m.exponentOf v ≠ 0 := by
  intro hzero
  rw [derivative?, if_pos hzero] at h
  cases h

/-- The exact totals of a derived term are the totals of the term, of the variable one less. -/
theorem exactMap_derivative?_apply [NatCast α] [Mul α] {m d : Monomial α} {v : Variable α}
    (h : m.derivative? v = some d) (id : VariableId) :
    (d.exactMap + Finsupp.single v.id 1 : VariableId →₀ ℕ) id = (m.exponentMap id).toNat := by
  have hfit : d.TotalsFit := totalsFit_of_nodup (nodup_derivative? h)
  have hword : d.exponentMap id + Finsupp.single v.id (1 : UInt32) id = m.exponentMap id :=
    DFunLike.congr_fun (exponentMap_derivative? h) id
  rw [Finsupp.add_apply, hfit.exactMap_eq]
  by_cases hid : id = v.id
  · have hne : m.exponentMap v.id ≠ 0 := m.exponentOf_eq v ▸ exponentOf_ne_zero_of_derivative? h
    subst hid
    rw [Finsupp.single_eq_same] at hword ⊢
    rw [← hword] at hne ⊢
    exact (toNat_add_one hne).symm
  · rw [Finsupp.single_eq_of_ne hid, add_zero] at hword ⊢
    rw [hword]

theorem length_eq_of_derivative? [NatCast α] [Mul α] {m d : Monomial α} {v : Variable α}
    (h : m.derivative? v = some d) : d.exponents.length = d.vars.length := by
  rw [derivative?, if_neg (exponentOf_ne_zero_of_derivative? h)] at h
  cases h
  simp [ofFactors]

theorem exactMap_derivative?_le [NatCast α] [Mul α] {m d : Monomial α} {v : Variable α}
    (h : m.derivative? v = some d) : d.exactMap ≤ m.exactMap := by
  intro id
  calc d.exactMap id ≤ (d.exactMap + Finsupp.single v.id 1 : VariableId →₀ ℕ) id :=
        Nat.le_add_right _ _
    _ = (m.exponentMap id).toNat := exactMap_derivative?_apply h id
    _ ≤ m.exactMap id := m.toNat_exponentMap_le id

/-- Where the totals fit, a derived term has the variable once less, exactly. -/
theorem TotalsFit.exactMap_derivative? [NatCast α] [Mul α] {m d : Monomial α} {v : Variable α}
    (hm : m.TotalsFit) (h : m.derivative? v = some d) :
    d.exactMap + Finsupp.single v.id 1 = m.exactMap := by
  ext id
  rw [exactMap_derivative?_apply h, hm.exactMap_eq]

end Monomial

/-- A term of a derivative is a number or derived from a term. -/
theorem Scalar.mem_toMonomials_derivative [Zero α] [One α] [NatCast α] [Mul α] {s : Scalar α}
    {v : Variable α} {k : Monomial α} (hk : k ∈ (s.derivative v).toMonomials) :
    (∃ c, k = Monomial.constant c) ∨ ∃ m ∈ s.toMonomials, m.derivative? v = some k := by
  cases s with
  | constant c => exact .inl ⟨_, List.mem_singleton.mp hk⟩
  | «variable» w => exact .inl ⟨_, List.mem_singleton.mp hk⟩
  | monomial m =>
    rw [derivative] at hk
    cases h : m.derivative? v with
    | none =>
      rw [h] at hk
      exact .inl ⟨_, List.mem_singleton.mp hk⟩
    | some d =>
      rw [h] at hk
      exact .inr ⟨m, List.mem_singleton_self m, (List.mem_singleton.mp hk).symm ▸ h⟩
  | polynomial p =>
    rw [derivative] at hk
    split at hk
    next => exact .inl ⟨_, List.mem_singleton.mp hk⟩
    next => exact .inr (List.mem_filterMap.mp hk)

section Semiring

variable [CommSemiring α]

/-! ## Terms and scalars -/

/-- The derivative of a term is written as the derivative of what the term is written as, and there
is none where that is zero. -/
theorem Monomial.exactMeaning_derivative? {m : Monomial α} (hm : m.TotalsFit) (v : Variable α) :
    ((m.derivative? v).elim 0 exactMeaning) = pderiv v.id m.exactMeaning := by
  have hexponent : m.exactMap v.id = (m.exponentOf v).toNat := by
    rw [hm.exactMap_eq, exponentOf_eq]
  rw [exactMeaning, MvPolynomial.pderiv_monomial, hexponent]
  cases h : m.derivative? v with
  | none =>
    have hzero : m.exponentOf v = 0 := by
      by_contra hne
      rw [derivative?, if_neg hne] at h
      cases h
    rw [hzero, UInt32.toNat_zero, Nat.cast_zero, mul_zero, map_zero]
    rfl
  | some d =>
    have hcoefficient : d.coefficient = m.coefficient * ((m.exponentOf v).toNat : α) := by
      rw [derivative?, if_neg (exponentOf_ne_zero_of_derivative? h)] at h
      cases h
      rfl
    rw [Option.elim_some, exactMeaning, hcoefficient, ← hm.exactMap_derivative? h,
      add_tsub_cancel_right]

theorem termsExact_derivatives {ms : List (Monomial α)} (hms : ∀ m ∈ ms, m.TotalsFit)
    (v : Variable α) :
    termsExact (ms.filterMap (·.derivative? v)) = pderiv v.id (termsExact ms) := by
  induction ms with
  | nil => exact (map_zero _).symm
  | cons m ms ih =>
    rw [termsExact_cons, map_add, ← ih fun n hn => hms n (List.mem_cons_of_mem _ hn),
      ← Monomial.exactMeaning_derivative? (hms m List.mem_cons_self)]
    cases h : m.derivative? v with
    | none => simp only [List.filterMap_cons, h, Option.elim_none, zero_add]
    | some d => simp only [List.filterMap_cons, h, Option.elim_some, termsExact_cons]

namespace Scalar

/-- **The derivative of a scalar is written as the partial derivative.** -/
theorem TotalsFit.exactMeaning_derivative {s : Scalar α} (hs : s.TotalsFit) (v : Variable α) :
    (s.derivative v).exactMeaning = pderiv v.id s.exactMeaning := by
  cases s with
  | constant c =>
    rw [derivative, exactMeaning_constant, exactMeaning_constant, map_zero, MvPolynomial.pderiv_C]
  | «variable» w =>
    rw [derivative, exactMeaning_constant, exactMeaning_variable]
    by_cases hw : w.id = v.id
    · rw [if_pos (Variable.beq_iff.mpr hw), hw, MvPolynomial.pderiv_X_self, map_one]
    · rw [if_neg fun h => hw (Variable.beq_iff.mp h), MvPolynomial.pderiv_X_of_ne hw, map_zero]
  | monomial m =>
    rw [exactMeaning_monomial, ← Monomial.exactMeaning_derivative? (hs m List.mem_cons_self),
      derivative]
    cases m.derivative? v with
    | none => exact (exactMeaning_constant 0).trans (map_zero _)
    | some d => exact exactMeaning_monomial d
  | polynomial p =>
    have hterms : ∀ m ∈ p.monomials, m.TotalsFit := hs
    show _ = pderiv v.id (termsExact p.monomials)
    rw [← termsExact_derivatives hterms, derivative]
    split
    next hnil => rw [hnil, exactMeaning_constant, map_zero, termsExact_nil]
    next => rfl

/-- No total of a derivative is larger than that of the term it comes from. -/
theorem below_derivative {P : VariableId → Prop} {s : Scalar α} (hs : s.FactorsIn P)
    (v : Variable α) : (s.derivative v).Below s := by
  intro k hk
  rcases mem_toMonomials_derivative hk with ⟨c, rfl⟩ | ⟨m, hm, hderived⟩
  · -- a constant is below whatever has a term
    obtain ⟨m, hm⟩ := List.exists_mem_of_ne_nil _ hs.ne_nil
    exact ⟨m, hm, fun _ => Nat.zero_le _⟩
  · exact ⟨m, hm, Monomial.exactMap_derivative?_le hderived⟩

/-! ## Coefficients -/

/-- The sum of the coefficients of the terms with the given exact map. -/
noncomputable def coefficientAt (s : Scalar α) (e : VariableId →₀ ℕ) : α :=
  ((s.toMonomials.filter fun m => m.exactMap = e).map (·.coefficient)).sum

/-- What the terms of one exact map sum to is a coefficient of the exact polynomial. -/
theorem coefficientAt_eq (s : Scalar α) (e : VariableId →₀ ℕ) :
    s.coefficientAt e = coeff e s.exactMeaning := by
  have h : ∀ ms : List (Monomial α),
      ((ms.filter fun m => m.exactMap = e).map (·.coefficient)).sum = coeff e (termsExact ms) := by
    intro ms
    induction ms with
    | nil => exact (MvPolynomial.coeff_zero e).symm
    | cons m ms ih =>
      rw [termsExact_cons, MvPolynomial.coeff_add, ← ih, Monomial.exactMeaning,
        MvPolynomial.coeff_monomial]
      by_cases hm : m.exactMap = e
      · rw [List.filter_cons_of_pos (by simpa using hm), if_pos hm, List.map_cons, List.sum_cons]
      · rw [List.filter_cons_of_neg (by simpa using hm), if_neg hm, zero_add]
  exact h s.toMonomials

theorem coefficientAt_monomial (m : Monomial α) (e : VariableId →₀ ℕ) :
    (monomial m).coefficientAt e = if m.exactMap = e then m.coefficient else 0 := by
  rw [coefficientAt_eq, exactMeaning_monomial, Monomial.exactMeaning, MvPolynomial.coeff_monomial]

theorem coefficientAt_constant (c : α) (e : VariableId →₀ ℕ) :
    (constant c).coefficientAt e = if 0 = e then c else 0 := by
  rw [coefficientAt_eq, exactMeaning_constant, MvPolynomial.coeff_C]

theorem TotalsFit.coefficientAt_derivative {s : Scalar α} (hs : s.TotalsFit) (v : Variable α)
    (e : VariableId →₀ ℕ) :
    (s.derivative v).coefficientAt e =
      (e v.id + 1) * s.coefficientAt (e + Finsupp.single v.id 1) := by
  rw [coefficientAt_eq, hs.exactMeaning_derivative, MvPolynomial.coeff_pderiv, coefficientAt_eq,
    mul_comm]

end Scalar

/-! ## Expressions -/

namespace Expression

end Expression

end Semiring

end DecisionAlgebra
