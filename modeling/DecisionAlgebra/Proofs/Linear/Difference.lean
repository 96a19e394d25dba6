import DecisionAlgebra.Linear.Split
import DecisionAlgebra.Proofs.Constraints

/-!
# The difference of the sides

A constraint between scalars is about the difference of its sides, a polynomial in which like terms
have been combined over both of them. The code keeps it as a canonical list of terms and splits it
into the terms of positive degree and the constant term. Both parts are read off the polynomial
here: the terms of degree one are the variables with a coefficient that is not zero. A degree is a
word, so a term tells its degree only where the exponents of the sides add up to what fits in one.
-/

namespace DecisionAlgebra

open MvPolynomial (coeff eval)

variable {α : Type} {P : VariableId → Prop}

/-! ## Degrees -/

theorem toNat_max (a b : UInt32) : (max a b).toNat = max a.toNat b.toNat := by
  show (if a ≤ b then b else a).toNat = max a.toNat b.toNat
  split
  next h => exact (max_eq_right (UInt32.le_iff_toNat_le.mp h)).symm
  next h =>
    have hlt : b.toNat < a.toNat := not_le.mp fun hle => h (UInt32.le_iff_toNat_le.mpr hle)
    exact (max_eq_left hlt.le).symm

theorem toNat_foldl_max_le_iff {β : Type} {f : β → UInt32} {n : Nat} (xs : List β) :
    ∀ d, ((xs.map f).foldl max d).toNat ≤ n ↔ d.toNat ≤ n ∧ ∀ x ∈ xs, (f x).toNat ≤ n := by
  induction xs with
  | nil => intro d; simp
  | cons x xs ih =>
    intro d
    rw [List.map_cons, List.foldl_cons, ih, List.forall_mem_cons, toNat_max, max_le_iff, and_assoc]

theorem Polynomial.toNat_degree_le_iff {p : Polynomial α} {n : Nat} :
    p.degree.toNat ≤ n ↔ ∀ m ∈ p.monomials, m.degree.toNat ≤ n :=
  (toNat_foldl_max_le_iff p.monomials 0).trans (and_iff_right (Nat.zero_le n))

theorem Scalar.toNat_degree_le_iff [One α] {s : Scalar α} {n : Nat} :
    s.degree.toNat ≤ n ↔ ∀ m ∈ s.toMonomials, m.degree.toNat ≤ n := by
  cases s with
  | constant c => simp [degree, toMonomials, Monomial.degree, Monomial.constant]
  | «variable» v => simp [degree, toMonomials, Monomial.degree, Monomial.term]
  | monomial m => simp [degree, toMonomials]
  | polynomial p => exact Polynomial.toNat_degree_le_iff

theorem Scalar.isLinear_iff [One α] {s : Scalar α} :
    s.isLinear = true ↔ ∀ m ∈ s.toMonomials, m.degree.toNat ≤ 1 :=
  decide_eq_true_iff.trans (UInt32.le_iff_toNat_le.trans toNat_degree_le_iff)

namespace Monomial

/-- Exponents that add up to one are a single one. -/
theorem eq_single_of_degree_one {s : VariableId →₀ ℕ} {id : VariableId} (h : s.degree = 1)
    (hid : 0 < s id) : s = Finsupp.single id 1 := by
  have hsplit := Finsupp.single_add_erase id s
  have hdegree : s id + (s.erase id).degree = 1 := by
    rw [← Finsupp.degree_single id (s id), ← map_add, hsplit, h]
  have hrest : s.erase id = 0 := (Finsupp.degree_eq_zero_iff _).mp (by omega)
  have hone : s id = 1 := by omega
  rw [← hsplit, hrest, hone, add_zero]

/-- A term of degree one is found by a factor with exponent one. -/
theorem exists_factor_of_linearVariable {m : Monomial α} {v : Variable α}
    (h : m.linearVariable = some v) : m.degree = 1 ∧ ∃ f ∈ m.factors, f.2 = 1 ∧ f.1 = v := by
  unfold linearVariable at h
  split at h
  next hdegree =>
    obtain ⟨f, hf, rfl⟩ := Option.map_eq_some_iff.mp h
    exact ⟨hdegree, f, List.mem_of_find?_eq_some hf, by simpa using List.find?_some hf, rfl⟩
  next => cases h

/-- The variable of a term of degree one occurs in it. -/
theorem exactMap_pos_of_linearVariable {m : Monomial α} {v : Variable α}
    (h : m.linearVariable = some v) : 0 < m.exactMap v.id := by
  obtain ⟨-, f, hf, hone, rfl⟩ := exists_factor_of_linearVariable h
  have hle : f.2.toNat ≤ m.exactMap f.1.id := le_exactSum_of_mem hf
  rw [hone] at hle
  exact hle

section DegreeFits

variable {m : Monomial α} (hfit : m.DegreeFits) (hm : m.exponents.length = m.vars.length)
include hfit hm

theorem exactMap_of_linearVariable {v : Variable α} (h : m.linearVariable = some v) :
    m.exactMap = Finsupp.single v.id 1 := by
  refine eq_single_of_degree_one ?_ (exactMap_pos_of_linearVariable h)
  rw [← hfit.toNat_degree hm, (exists_factor_of_linearVariable h).1, UInt32.toNat_one]

/-- Whatever zero exponents it writes, a monomial of degree one has a factor with exponent one. -/
theorem exists_linearVariable (h : m.degree = 1) : ∃ v, m.linearVariable = some v := by
  have hdegree : m.exactMap.degree = 1 := by rw [← hfit.toNat_degree hm, h, UInt32.toNat_one]
  have hne : m.exactMap ≠ 0 := by
    intro hzero
    rw [hzero, map_zero] at hdegree
    cases hdegree
  obtain ⟨id, hid⟩ := Finsupp.ne_iff.mp hne
  obtain ⟨f, hf, -, hpos⟩ := exists_mem_of_exactSum_pos (Nat.pos_of_ne_zero hid)
  have hone : f.2 = 1 := by
    have hle : f.2.toNat ≤ m.exactMap f.1.id := le_exactSum_of_mem hf
    have htotal : m.exactMap f.1.id ≤ m.exactMap.degree := Finsupp.le_degree _ _
    have hpos' : 0 < f.2.toNat := UInt32.lt_iff_toNat_lt.mp hpos
    refine UInt32.toNat_inj.mp ?_
    rw [UInt32.toNat_one]
    omega
  have hfind : (m.factors.find? (·.2 = 1)).isSome := by
    rw [List.find?_isSome]
    exact ⟨f, hf, by simpa using hone⟩
  obtain ⟨g, hg⟩ := Option.isSome_iff_exists.mp hfind
  exact ⟨g.1, by rw [linearVariable, if_pos h, hg]; rfl⟩

/-- The variable of a monomial of degree one is the one of its exact map. -/
theorem exists_linearVariable_iff {id : VariableId} :
    (∃ v, m.linearVariable = some v ∧ v.id = id) ↔ m.exactMap = Finsupp.single id 1 := by
  constructor
  · intro h
    obtain ⟨v, hv, rfl⟩ := h
    exact exactMap_of_linearVariable hfit hm hv
  · intro h
    have hdegree : m.degree = 1 := by
      refine UInt32.toNat_inj.mp ?_
      rw [hfit.toNat_degree hm, h, Finsupp.degree_single, UInt32.toNat_one]
    obtain ⟨v, hv⟩ := exists_linearVariable hfit hm hdegree
    exact ⟨v, hv, Finsupp.single_left_injective one_ne_zero
      ((exactMap_of_linearVariable hfit hm hv).symm.trans h)⟩

end DegreeFits

/-- The variable of a term of degree one, or none for a term that stands for nothing. -/
inductive IsLinearTerm [Zero α] (m : Monomial α) : Prop where
  | zero (hvariable : m.linearVariable = none) (hcoefficient : m.coefficient = 0)
  | term (v : Variable α) (hvariable : m.linearVariable = some v)
      (hexponents : m.exactMap = Finsupp.single v.id 1)

theorem isLinearTerm [Zero α] {m : Monomial α} (hfit : m.DegreeFits)
    (hm : m.exponents.length = m.vars.length) (h : m.degree = 1) : m.IsLinearTerm := by
  obtain ⟨v, hv⟩ := exists_linearVariable hfit hm h
  exact .term v hv (exactMap_of_linearVariable hfit hm hv)

end Monomial

/-- A linear scalar has no total above one. -/
theorem Scalar.DegreesFit.totalsWithin_of_isLinear [One α] {s : Scalar α} (h : s.DegreesFit)
    (hs : s.FactorsIn P) (hlinear : s.isLinear = true) : s.TotalsWithin 1 := by
  intro m hm
  refine Monomial.totalsWithin_iff.mpr fun id => (Finsupp.le_degree id m.exactMap).trans ?_
  rw [← (h m hm).toNat_degree (hs.each m hm).length_eq]
  exact Scalar.isLinear_iff.mp hlinear m hm

theorem Scalar.DegreesFit.powersWithin_of_isLinear [One α] {s : Scalar α} (h : s.DegreesFit)
    (hs : s.FactorsIn P) (hlinear : s.isLinear = true) : s.PowersWithin :=
  ((h.totalsWithin_of_isLinear hs hlinear).mono (by decide)).powersWithin

section Ring

variable [CommRing α]

theorem eval_linear (x : VariableId → α) (id : VariableId) (k : α) :
    eval x (MvPolynomial.monomial (Finsupp.single id 1) k) = k * x id := by
  have hpower : (Finsupp.single id 1).prod (fun i e => x i ^ e) = x id ^ 1 :=
    Finsupp.prod_single_index (pow_zero _)
  rw [MvPolynomial.eval_monomial, hpower, pow_one]

/-! ## Splitting off the constant term -/

namespace Polynomial

theorem mem_withoutConstant_of_pos {p : Polynomial α} {m : Monomial α} (hm : m ∈ p.monomials)
    (hpos : 0 < m.degree) : m ∈ p.withoutConstant.monomials := by
  have hmem : m ∈ p.monomials.filter (0 < ·.degree) :=
    List.mem_filter.mpr ⟨hm, by simpa using hpos⟩
  unfold withoutConstant
  split
  next hnil => exact absurd (hnil ▸ hmem) List.not_mem_nil
  next => exact hmem

/-- A term of degree zero has no factors that count: its degree has not wrapped around. -/
def TellsConstants (ms : List (Monomial α)) : Prop :=
  ∀ m ∈ ms, m.degree = 0 → m.exactMap = 0

/-- A sum is its terms of positive degree plus the coefficients of the others. -/
theorem termsExact_filter_degree {ms : List (Monomial α)} (hms : TellsConstants ms) :
    termsExact ms = termsExact (ms.filter (0 < ·.degree)) +
      MvPolynomial.C ((ms.filter (·.degree = 0)).map (·.coefficient)).sum := by
  induction ms with
  | nil => simp
  | cons m ms ih =>
    have hrest := ih fun n hn => hms n (List.mem_cons_of_mem _ hn)
    by_cases hzero : m.degree = 0
    · -- a term of degree zero is a number, whatever zero exponents it writes
      have hconstant : m.exactMeaning = MvPolynomial.C m.coefficient := by
        rw [Monomial.exactMeaning, hms m List.mem_cons_self hzero]
        rfl
      rw [List.filter_cons_of_neg (by simp [hzero]), List.filter_cons_of_pos (by simp [hzero]),
        termsExact_cons, hconstant, hrest, List.map_cons, List.sum_cons, map_add, add_left_comm]
    · have hpos : 0 < m.degree := UInt32.pos_iff_ne_zero.mpr hzero
      rw [List.filter_cons_of_pos (by simpa using hpos),
        List.filter_cons_of_neg (by simp [hzero]), termsExact_cons, termsExact_cons, hrest,
        add_assoc]

/-- A polynomial is its terms of positive degree plus its constant term. -/
theorem termsExact_withoutConstant {p : Polynomial α} (hp : TellsConstants p.monomials) :
    termsExact p.monomials =
      termsExact p.withoutConstant.monomials + MvPolynomial.C p.constant := by
  have hpositive : termsExact p.withoutConstant.monomials =
      termsExact (p.monomials.filter (0 < ·.degree)) := by
    unfold withoutConstant
    split
    next hnil => rw [hnil]; simp
    next => rfl
  rw [termsExact_filter_degree hp, hpositive, constant, total_eq]

end Polynomial

/-! ## The sides of a constraint -/

namespace ScalarConstraint

/-- The polynomial that the left side minus the right side is written as. -/
noncomputable def net (c : ScalarConstraint α) : MvPolynomial VariableId α :=
  c.left.exactMeaning - c.right.exactMeaning

/-- The coefficient of a variable in the left side minus that in the right side. -/
noncomputable def netCoefficient (c : ScalarConstraint α) (id : VariableId) : α :=
  coeff (Finsupp.single id 1) c.net

theorem termsExact_sides (c : ScalarConstraint α) :
    termsExact (c.left.toMonomials ++ c.right.toMonomials.map (·.scaled (-1))) = c.net := by
  have hnegated : ∀ ms : List (Monomial α),
      termsExact (ms.map (·.scaled (-1))) = -termsExact ms := by
    intro ms
    induction ms with
    | nil => simp
    | cons m ms ih =>
      have hm : (m.scaled (-1)).exactMeaning = -m.exactMeaning := by
        show MvPolynomial.monomial m.exactMap (m.coefficient * -1) = _
        rw [mul_neg_one, map_neg]
        rfl
      rw [List.map_cons, termsExact_cons, termsExact_cons, hm, ih, neg_add]
  rw [termsExact_append, hnegated, net, sub_eq_add_neg]
  rfl

theorem totalDegree_le_iff {c : ScalarConstraint α} {n : Nat} :
    c.net.totalDegree ≤ n ↔ ∀ s ∈ c.net.support, s.degree ≤ n :=
  Finset.sup_le_iff

/-- A term of the left side minus the right side has the factors of a term of a side. -/
theorem exists_term_of_coeff_ne_zero {c : ScalarConstraint α} {s : VariableId →₀ ℕ}
    (h : coeff s c.net ≠ 0) :
    ∃ m ∈ c.left.toMonomials ++ c.right.toMonomials, m.exactMap = s := by
  rw [← termsExact_sides] at h
  obtain ⟨m, hm, hexact⟩ := exists_mem_of_coeff_termsExact h
  rcases List.mem_append.mp hm with hl | hr
  · exact ⟨m, List.mem_append_left _ hl, hexact⟩
  · obtain ⟨n, hn, rfl⟩ := List.mem_map.mp hr
    exact ⟨n, List.mem_append_right _ hn, hexact⟩

/-- A variable with a net coefficient occurs in a side. -/
theorem mem_occurring_of_netCoefficient {c : ScalarConstraint α} {id : VariableId}
    (h : c.netCoefficient id ≠ 0) :
    id ∈ c.left.occurring.map (·.id) ∨ id ∈ c.right.occurring.map (·.id) := by
  obtain ⟨m, hm, hexact⟩ := exists_term_of_coeff_ne_zero h
  have hpos : 0 < m.exactMap id := by
    rw [hexact, Finsupp.single_eq_same]
    exact Nat.one_pos
  rw [Scalar.mem_ids_occurring, Scalar.mem_ids_occurring]
  exact (List.mem_append.mp hm).imp (fun h => ⟨m, h, hpos⟩) fun h => ⟨m, h, hpos⟩

section Difference

variable [BEq α]

/-- A term of the difference is normal and has the totals of a term of a side, or is a zero. -/
theorem mem_difference {c : ScalarConstraint α} {m : Monomial α}
    (hm : m ∈ c.difference.monomials) : m = Monomial.constant 0 ∨ m.Normal ∧
      ∃ n ∈ c.left.toMonomials ++ c.right.toMonomials, n.exponentMap = m.exponentMap := by
  refine (Polynomial.mem_simplified hm).imp_right fun ⟨hnormal, n, hn, hexp⟩ => ⟨hnormal, ?_⟩
  rcases List.mem_append.mp hn with hl | hr
  · exact ⟨n, List.mem_append_left _ hl, hexp⟩
  · obtain ⟨k, hk, rfl⟩ := List.mem_map.mp hr
    exact ⟨k, List.mem_append_right _ hk, hexp⟩

/-- The variables and the constant of a split constraint make up the difference of the sides. -/
theorem termsExact_split {c : ScalarConstraint α}
    (hc : Polynomial.TellsConstants c.difference.monomials) :
    termsExact c.split.1.monomials =
      termsExact c.difference.monomials + MvPolynomial.C c.split.2 := by
  show termsExact c.difference.withoutConstant.monomials =
    termsExact c.difference.monomials + MvPolynomial.C (-c.difference.constant)
  rw [Polynomial.termsExact_withoutConstant hc, map_neg, add_neg_cancel_right]

variable [LawfulBEq α]

theorem canonical_difference (c : ScalarConstraint α) :
    Polynomial.Canonical c.difference.monomials :=
  Polynomial.canonical_simplified _

theorem meaning_difference (c : ScalarConstraint α) :
    termsMeaning c.difference.monomials = inWords c.net := by
  rw [difference, Polynomial.termsMeaning_simplified, ← inWords_termsExact, termsExact_sides]

theorem coefficient_ne_zero {c : ScalarConstraint α} {m : Monomial α}
    (hm : m ∈ c.difference.monomials) (hpos : 0 < m.degree) : m.coefficient ≠ 0 := by
  rcases c.canonical_difference.nonzero with h | h
  · exact h m hm
  · rw [h, List.mem_singleton] at hm
    rw [hm] at hpos
    exact absurd hpos (UInt32.lt_irrefl 0)

/-- As words, the split terms make up the left side minus the right side and the constant. -/
theorem meaning_split {c : ScalarConstraint α}
    (hc : Polynomial.TellsConstants c.difference.monomials) :
    termsMeaning c.split.1.monomials = inWords c.net + .single 0 c.split.2 := by
  rw [← inWords_termsExact, termsExact_split hc, map_add, inWords_termsExact, meaning_difference]
  exact congrArg _ (inWords_monomial 0 c.split.2)

end Difference

/-! ## Sides whose degrees fit -/

section DegreesFit

variable {c : ScalarConstraint α} (hin : c.FactorsIn P) (hfit : c.DegreesFit)
include hin hfit

theorem degreeFits_of_mem_sides {n : Monomial α}
    (hn : n ∈ c.left.toMonomials ++ c.right.toMonomials) :
    n.DegreeFits ∧ n.exponents.length = n.vars.length :=
  (List.mem_append.mp hn).elim (fun h => ⟨hfit.1 n h, (hin.left.each n h).length_eq⟩)
    fun h => ⟨hfit.2 n h, (hin.right.each n h).length_eq⟩

theorem exponentsWithin_net : ExponentsWithin Monomial.largestWord c.net :=
  (hfit.1.totalsFit hin.left).exponentsWithin.sub (hfit.2.totalsFit hin.right).exponentsWithin

variable [BEq α]

/-- The exact map of a term of the difference is that of a term of a side. -/
theorem exists_exactMap_eq {m : Monomial α} (hm : m ∈ c.difference.monomials) :
    m = Monomial.constant 0 ∨ ∃ n ∈ c.left.toMonomials ++ c.right.toMonomials,
      n.exactMap = m.exactMap := by
  refine (mem_difference hm).imp_right fun ⟨hnormal, n, hn, hexp⟩ => ⟨n, hn, ?_⟩
  obtain ⟨hnfit, hlength⟩ := degreeFits_of_mem_sides hin hfit hn
  exact ((hnfit.totalsFit hlength).exactMap_eq_iff hnormal.totalsFit).mpr hexp

variable [LawfulBEq α]

theorem degreeFits_of_mem_difference {m : Monomial α} (hm : m ∈ c.difference.monomials) :
    m.DegreeFits := by
  rcases exists_exactMap_eq hin hfit hm with rfl | ⟨n, hn, hexact⟩
  · exact Nat.zero_le _
  · obtain ⟨hnfit, hlength⟩ := degreeFits_of_mem_sides hin hfit hn
    have hlength' := (c.canonical_difference.normal m hm).length_eq
    rw [Monomial.DegreeFits, ← Monomial.degree_exactMap hlength', ← hexact,
      Monomial.degree_exactMap hlength]
    exact hnfit

theorem toNat_degree_of_mem_difference {m : Monomial α} (hm : m ∈ c.difference.monomials) :
    m.degree.toNat = m.exactMap.degree :=
  (degreeFits_of_mem_difference hin hfit hm).toNat_degree
    (c.canonical_difference.normal m hm).length_eq

theorem tellsConstants_difference : Polynomial.TellsConstants c.difference.monomials :=
  fun m hm => (degreeFits_of_mem_difference hin hfit hm).exactMap_eq_zero
    (c.canonical_difference.normal m hm).length_eq

/-- The difference is written as the left side minus the right side. -/
theorem termsExact_difference : termsExact c.difference.monomials = c.net := by
  refine eq_of_inWords_eq (exponentsWithin_termsExact fun m hm => ?_)
    (exponentsWithin_net hin hfit) ?_
  · exact (c.canonical_difference.normal m hm).totalsFit
  · rw [inWords_termsExact, meaning_difference]

/-- The split terms are written as the difference of the sides and the constant. -/
theorem termsExact_split_eq_net :
    termsExact c.split.1.monomials = c.net + MvPolynomial.C c.split.2 := by
  rw [termsExact_split (tellsConstants_difference hin hfit), termsExact_difference hin hfit]

/-- The terms of the difference carry the coefficients of the polynomial. -/
theorem coefficient_of_mem_difference {m : Monomial α} (hm : m ∈ c.difference.monomials) :
    coeff m.exactMap c.net = m.coefficient := by
  have htotals := Monomial.totalsWithin_iff.mp (c.canonical_difference.normal m hm).totalsFit
  rw [← coeff_inWords (exponentsWithin_net hin hfit) htotals, ← meaning_difference,
    m.wordsOf_exactMap]
  exact coeff_of_apart c.canonical_difference.apart hm

theorem exists_mem_difference {s : VariableId →₀ ℕ} (h : coeff s c.net ≠ 0) :
    ∃ m ∈ c.difference.monomials, m.exactMap = s := by
  rw [← termsExact_difference hin hfit] at h
  exact exists_mem_of_coeff_termsExact h

theorem exactMap_mem_support {m : Monomial α} (hm : m ∈ c.difference.monomials)
    (hpos : 0 < m.degree) : m.exactMap ∈ c.net.support := by
  rw [MvPolynomial.mem_support_iff, coefficient_of_mem_difference hin hfit hm]
  exact coefficient_ne_zero hm hpos

/-- No term of the difference is of a higher degree than the polynomial. -/
theorem toNat_degree_le_of_totalDegree {n : Nat} (h : c.net.totalDegree ≤ n) {m : Monomial α}
    (hm : m ∈ c.difference.monomials) : m.degree.toNat ≤ n := by
  by_cases hzero : m.degree = 0
  · rw [hzero]
    exact Nat.zero_le n
  · rw [toNat_degree_of_mem_difference hin hfit hm]
    exact totalDegree_le_iff.mp h _
      (exactMap_mem_support hin hfit hm (UInt32.pos_iff_ne_zero.mpr hzero))

/-- **The terms of degree one are the variables with a net coefficient.** -/
theorem exists_linearVariable_iff {id : VariableId} :
    (∃ m ∈ c.split.1.monomials, ∃ v, m.linearVariable = some v ∧ v.id = id) ↔
      c.netCoefficient id ≠ 0 := by
  constructor
  · intro h
    obtain ⟨m, hm, hv⟩ := h
    rcases Polynomial.mem_withoutConstant hm with ⟨hmem, hpos⟩ | rfl
    · have hexact := (Monomial.exists_linearVariable_iff
        (degreeFits_of_mem_difference hin hfit hmem)
        (c.canonical_difference.normal m hmem).length_eq).mp hv
      rw [netCoefficient, ← hexact, coefficient_of_mem_difference hin hfit hmem]
      exact coefficient_ne_zero hmem hpos
    · obtain ⟨v, hv, -⟩ := hv
      cases hv
  · intro h
    obtain ⟨m, hm, hexact⟩ := exists_mem_difference hin hfit h
    have hpos : 0 < m.degree := by
      rw [UInt32.lt_iff_toNat_lt, toNat_degree_of_mem_difference hin hfit hm, hexact,
        Finsupp.degree_single]
      exact Nat.one_pos
    exact ⟨m, Polynomial.mem_withoutConstant_of_pos hm hpos,
      (Monomial.exists_linearVariable_iff (degreeFits_of_mem_difference hin hfit hm)
        (c.canonical_difference.normal m hm).length_eq).mpr hexact⟩

/-- Where the difference is linear, every term of it is a variable with a coefficient, or zero. -/
theorem isLinearTerm_of_mem_split (hlinear : c.net.totalDegree ≤ 1) {m : Monomial α}
    (hm : m ∈ c.split.1.monomials) : m.IsLinearTerm := by
  rcases Polynomial.mem_withoutConstant hm with ⟨hmem, hpos⟩ | rfl
  · have hle := toNat_degree_le_of_totalDegree hin hfit hlinear hmem
    have hpos' : 0 < m.degree.toNat := UInt32.lt_iff_toNat_lt.mp hpos
    refine Monomial.isLinearTerm (degreeFits_of_mem_difference hin hfit hmem)
      (c.canonical_difference.normal m hmem).length_eq (UInt32.toNat_inj.mp ?_)
    rw [UInt32.toNat_one]
    omega
  · exact .zero rfl rfl

end DegreesFit

end ScalarConstraint

end Ring

end DecisionAlgebra
