import DecisionAlgebra.Proofs.LikeTerms
import Mathlib.Algebra.BigOperators.Ring.List
import Mathlib.Algebra.MonoidAlgebra.Defs

/-!
# What a scalar means

Over exact numbers a monomial means a monomial of the monoid algebra over the exponent maps, and a
scalar means the sum of its terms. Exponents are words there, as in the program, so without any
bound the meaning of a sum or a product is the sum or the product of the meanings, however it is
written down, and collecting like terms changes no meaning. A canonical list of terms is read off
its meaning: its coefficients are the coefficients of the polynomial.
-/

namespace DecisionAlgebra

variable {α : Type} {P : VariableId → Prop}

section Semiring

variable [CommSemiring α]

/-- Polynomials in the identifiers with words as exponents. -/
abbrev WordPolynomial (α : Type) [CommSemiring α] : Type :=
  AddMonoidAlgebra α (VariableId →₀ UInt32)

/-- The polynomial that a monomial stands for. -/
noncomputable def Monomial.meaning (m : Monomial α) : WordPolynomial α :=
  .single m.exponentMap m.coefficient

/-- The polynomial that a list of terms stands for. -/
noncomputable def termsMeaning (ms : List (Monomial α)) : WordPolynomial α :=
  (ms.map Monomial.meaning).sum

/-- The polynomial that a scalar stands for. -/
noncomputable def Scalar.meaning (s : Scalar α) : WordPolynomial α :=
  termsMeaning s.toMonomials

/-! ## Lists of terms -/

@[simp] theorem termsMeaning_nil : termsMeaning ([] : List (Monomial α)) = 0 := rfl

@[simp] theorem termsMeaning_cons (m : Monomial α) (ms : List (Monomial α)) :
    termsMeaning (m :: ms) = m.meaning + termsMeaning ms := by
  simp [termsMeaning]

@[simp] theorem termsMeaning_append (ms ns : List (Monomial α)) :
    termsMeaning (ms ++ ns) = termsMeaning ms + termsMeaning ns := by
  simp [termsMeaning]

namespace Monomial

@[simp] theorem meaning_constant (c : α) : (constant c).meaning = .single 0 c := rfl

theorem meaning_withCoefficient (m : Monomial α) (c : α) :
    (m.withCoefficient c).meaning = .single m.exponentMap c := rfl

@[simp] theorem meaning_normalized (m : Monomial α) : m.normalized.meaning = m.meaning := by
  rw [meaning, meaning, exponentMap_normalized]
  rfl

theorem IsProduct.meaning_eq {a b m : Monomial α} (h : IsProduct a b m) :
    m.meaning = a.meaning * b.meaning := by
  rw [meaning, meaning, meaning, AddMonoidAlgebra.single_mul_single, h.exponentMap_eq,
    h.coefficient_eq]

end Monomial

theorem termsMeaning_product (ls rs : List (Monomial α)) :
    ((ls ×ˢ rs).map fun lr => lr.1.meaning * lr.2.meaning).sum =
      termsMeaning ls * termsMeaning rs := by
  induction ls with
  | nil => simp
  | cons l ls ih =>
    have hrow : ((rs.map (Prod.mk l)).map fun lr => lr.1.meaning * lr.2.meaning).sum =
        l.meaning * termsMeaning rs := by
      rw [List.map_map]
      exact List.sum_map_mul_left rs Monomial.meaning l.meaning
    rw [List.product_cons, List.map_append, List.sum_append, hrow, ih, termsMeaning_cons, add_mul]

/-- Multiplying out means multiplying. -/
theorem AreProducts.meaning_eq {ls rs ms : List (Monomial α)} (h : AreProducts ls rs ms) :
    termsMeaning ms = termsMeaning ls * termsMeaning rs := by
  have hmap : ∀ {ps : List (Monomial α × Monomial α)} {ns : List (Monomial α)},
      List.Forall₂ (fun lr m => Monomial.IsProduct lr.1 lr.2 m) ps ns →
        termsMeaning ns = (ps.map fun lr => lr.1.meaning * lr.2.meaning).sum := by
    intro ps ns hps
    induction hps with
    | nil => rfl
    | cons hm _ ih => rw [termsMeaning_cons, ih, hm.meaning_eq, List.map_cons, List.sum_cons]
  rw [hmap h, termsMeaning_product]

/-! ## Like terms -/

namespace Polynomial

theorem termsMeaning_addTerm {gs : Groups α} (h : Sound gs) (m : Monomial α) :
    termsMeaning ((addTerm m.signature m gs).map (·.2)) =
      m.meaning + termsMeaning (gs.map (·.2)) := by
  have hsig := h.signature_eq
  clear h
  induction gs with
  | nil => simp [addTerm]
  | cons g gs ih =>
    rw [addTerm]
    by_cases hg : g.1 = m.signature
    · -- one signature is one exponent map, so the coefficients of the two add up
      have hexp : g.2.exponentMap = m.exponentMap :=
        Monomial.signature_eq_iff.mp ((hsig g List.mem_cons_self).trans hg)
      rw [if_pos hg, List.map_cons, List.map_cons, termsMeaning_cons, termsMeaning_cons,
        Monomial.meaning_withCoefficient, AddMonoidAlgebra.single_add, ← add_assoc,
        add_comm m.meaning]
      rw [Monomial.meaning, Monomial.meaning, hexp]
    · rw [if_neg hg, List.map_cons, List.map_cons, termsMeaning_cons, termsMeaning_cons,
        ih fun k hk => hsig k (List.mem_cons_of_mem _ hk), add_left_comm]

theorem termsMeaning_groups (ms : List (Monomial α)) :
    termsMeaning ((groups ms).map (·.2)) = termsMeaning ms := by
  -- what is collected so far plus what is still to come stays the same
  have h : ∀ (ns : List (Monomial α)) (gs : Groups α), Sound gs →
      termsMeaning ((ns.foldl (fun gs m => addTerm m.signature m gs) gs).map (·.2)) =
        termsMeaning ns + termsMeaning (gs.map (·.2)) := by
    intro ns
    induction ns with
    | nil => intro gs _; rw [List.foldl_nil, termsMeaning_nil, zero_add]
    | cons n ns ih =>
      intro gs hgs
      rw [List.foldl_cons, ih _ (hgs.addTerm n), termsMeaning_addTerm hgs, termsMeaning_cons,
        ← add_assoc, add_comm (termsMeaning ns)]
  rw [groups, h ms [] sound_nil, List.map_nil, termsMeaning_nil, add_zero]

/-- Terms with a zero coefficient mean nothing. -/
theorem termsMeaning_filter_ne_zero [BEq α] [LawfulBEq α] (ms : List (Monomial α)) :
    termsMeaning (ms.filter fun m => !(m.coefficient == 0)) = termsMeaning ms := by
  induction ms with
  | nil => rfl
  | cons m ms ih =>
    by_cases hm : m.coefficient = 0
    · rw [List.filter_cons_of_neg (by simp [hm]), ih, termsMeaning_cons, Monomial.meaning, hm,
        AddMonoidAlgebra.single_zero, zero_add]
    · rw [List.filter_cons_of_pos (by simp [hm]), termsMeaning_cons, termsMeaning_cons, ih]

/-- **Simplifying changes no meaning.** -/
theorem termsMeaning_simplified [BEq α] [LawfulBEq α] (p : Polynomial α) :
    termsMeaning p.simplified.monomials = termsMeaning p.monomials := by
  have hkept : termsMeaning (kept p.monomials) = termsMeaning p.monomials := by
    rw [kept, termsMeaning_filter_ne_zero, termsMeaning_groups]
  rcases monomials_simplified p with ⟨hnil, h⟩ | ⟨-, h⟩
  · rw [h, ← hkept, hnil]
    simp
  · rw [h, hkept]

end Polynomial

/-! ## Coefficients -/

/-- A coefficient that is not zero belongs to a term. -/
theorem exists_mem_of_coeff_ne_zero {ms : List (Monomial α)} {s : VariableId →₀ UInt32}
    (h : (termsMeaning ms).coeff s ≠ 0) :
    ∃ m ∈ ms, m.exponentMap = s ∧ m.coefficient ≠ 0 := by
  induction ms with
  | nil => exact absurd rfl h
  | cons m ms ih =>
    by_cases hm : m.exponentMap = s ∧ m.coefficient ≠ 0
    · exact ⟨m, List.mem_cons_self, hm⟩
    · have hzero : m.meaning.coeff s = 0 := by
        rw [Monomial.meaning, AddMonoidAlgebra.coeff_single, Finsupp.single_apply]
        split
        next heq => exact of_not_not fun hc => hm ⟨heq, hc⟩
        next => rfl
      rw [termsMeaning_cons, AddMonoidAlgebra.coeff_add, Finsupp.add_apply, hzero, zero_add] at h
      obtain ⟨n, hn, hspec⟩ := ih h
      exact ⟨n, List.mem_cons_of_mem _ hn, hspec⟩

/-- Where no two terms are alike, the coefficients are those of the polynomial. -/
theorem coeff_of_apart {ms : List (Monomial α)}
    (hms : ms.Pairwise fun a b => a.exponentMap ≠ b.exponentMap) {m : Monomial α} (hm : m ∈ ms) :
    (termsMeaning ms).coeff m.exponentMap = m.coefficient := by
  induction ms with
  | nil => cases hm
  | cons n ms ih =>
    obtain ⟨hhead, htail⟩ := List.pairwise_cons.mp hms
    rw [termsMeaning_cons, AddMonoidAlgebra.coeff_add, Finsupp.add_apply, Monomial.meaning,
      AddMonoidAlgebra.coeff_single, Finsupp.single_apply]
    rcases List.mem_cons.mp hm with rfl | hm'
    · -- no later term has these exponents
      have hrest : (termsMeaning ms).coeff m.exponentMap = 0 := by
        by_contra hne
        obtain ⟨k, hk, hexp, -⟩ := exists_mem_of_coeff_ne_zero hne
        exact hhead k hk hexp.symm
      rw [if_pos rfl, hrest, add_zero]
    · rw [if_neg (hhead m hm'), zero_add, ih htail hm']

/-! ## Scalars -/

namespace Scalar

@[simp] theorem meaning_constant (c : α) : (constant c).meaning = .single 0 c := by
  simp [meaning, toMonomials]

@[simp] theorem meaning_monomial (m : Monomial α) : (monomial m).meaning = m.meaning := by
  simp [meaning, toMonomials]

@[simp] theorem meaning_plus (l r : Scalar α) : (l.plus r).meaning = l.meaning + r.meaning := by
  rw [meaning, meaning, meaning]
  rcases toMonomials_plus l r with h | ⟨a, b, ha, hb, hexp, h⟩
  · rw [h, termsMeaning_append]
  · rw [h, ha, hb, termsMeaning_cons, termsMeaning_cons, termsMeaning_cons, termsMeaning_nil,
      add_zero, add_zero, add_zero, Monomial.meaning_withCoefficient, AddMonoidAlgebra.single_add,
      Monomial.meaning, Monomial.meaning, hexp]

theorem meaning_foldl_plus (ts : List (Scalar α)) :
    ∀ s : Scalar α, (ts.foldl plus s).meaning = s.meaning + (ts.map meaning).sum := by
  induction ts with
  | nil => intro s; simp
  | cons t ts ih =>
    intro s
    rw [List.foldl_cons, ih, meaning_plus, List.map_cons, List.sum_cons, add_assoc]

theorem meaning_sum (ts : List (Scalar α)) : (sum ts).meaning = (ts.map meaning).sum := by
  cases ts with
  | nil => simp [sum]
  | cons t ts => rw [sum, meaning_foldl_plus, List.map_cons, List.sum_cons]

/-- The product of well-formed scalars means the product of what they mean. -/
theorem meaning_times {l r s : Scalar α} (hl : l.FactorsIn P) (hr : r.FactorsIn P)
    (h : l.times r = some s) : s.meaning = l.meaning * r.meaning := by
  obtain ⟨t, ht, -, hprod⟩ := exists_times hl hr
  rw [h] at ht
  cases ht
  exact hprod.meaning_eq

theorem meaning_timesPower {base : Scalar α} (hbase : base.FactorsIn P) (n : Nat) :
    ∀ {result s : Scalar α}, result.FactorsIn P → base.timesPower n result = some s →
      s.meaning = result.meaning * base.meaning ^ n := by
  induction n with
  | zero =>
    intro result s _ h
    cases h
    rw [pow_zero, mul_one]
  | succ n ih =>
    intro result s hresult h
    obtain ⟨next, hnext, hin, -⟩ := exists_times hresult hbase
    rw [timesPower, hnext] at h
    rw [ih hin h, meaning_times hresult hbase hnext, pow_succ', mul_assoc]

theorem meaning_power {base s : Scalar α} (hbase : base.FactorsIn P) {n : Nat}
    (h : base.power n = some s) : s.meaning = base.meaning ^ n := by
  rw [meaning_timesPower hbase n (factorsIn_constant 1) h, meaning_constant,
    ← AddMonoidAlgebra.one_def, one_mul]

@[simp] theorem meaning_simplified [BEq α] [LawfulBEq α] (s : Scalar α) :
    s.simplified.meaning = s.meaning := by
  cases s with
  | constant c => rfl
  | «variable» v => rfl
  | monomial m => simp [simplified]
  | polynomial p => exact Polynomial.termsMeaning_simplified p

end Scalar

end Semiring

section Ring

variable [CommRing α]

/-- The negated scalar means the negative. -/
theorem Scalar.meaning_negated {s t : Scalar α} (hs : s.FactorsIn P) (h : s.negated = some t) :
    t.meaning = -s.meaning := by
  obtain ⟨u, hu, -, hprod⟩ := exists_negated hs
  rw [h] at hu
  cases hu
  rw [meaning, hprod.meaning_eq, termsMeaning_cons, termsMeaning_nil, add_zero,
    Monomial.meaning_constant, AddMonoidAlgebra.single_neg, ← AddMonoidAlgebra.one_def, mul_neg_one]
  rfl

end Ring

end DecisionAlgebra
