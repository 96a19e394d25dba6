import DecisionAlgebra.Proofs.ExponentSets
import DecisionAlgebra.Proofs.Linear.Difference
import DecisionAlgebra.Proofs.Powers
import Mathlib.Algebra.Order.Group.Pointwise.Bounds
import Mathlib.Order.SuccPred.Limit

/-!
# Degrees

The degree of a well-formed expression is the greatest degree of its exponent maps, so it is read
off their set and does not depend on the numbers. Terms only cancel when they are simplified: until
then the degree of a sum is the greater one of the operands and that of a product is the sum, and
neither is only a bound. A degree is a word, so what is added has to fit in one. A derivative has
the variable off once, which takes one off the degree.
-/

namespace DecisionAlgebra

open scoped Pointwise

variable {α : Type} {P : VariableId → Prop}

/-! ## Greatest degrees -/

/-- The degrees of exponent maps, as numbers. -/
def degrees (S : Set (VariableId →₀ UInt32)) : Set ℕ := (fun x => x.degree.toNat) '' S

section Greatest

variable {S T : Set (VariableId →₀ UInt32)} {m n : ℕ}

/-- Where the greatest degrees add up to what fits in a word, the greatest degree of a sum of
exponent maps is their sum. -/
theorem isGreatest_degrees_add (hS : IsGreatest (degrees S) m) (hT : IsGreatest (degrees T) n)
    (h : m + n ≤ Monomial.largestWord) : IsGreatest (degrees (S + T)) (m + n) := by
  constructor
  · obtain ⟨x, hx, rfl⟩ := hS.1
    obtain ⟨y, hy, rfl⟩ := hT.1
    refine ⟨x + y, Set.add_mem_add hx hy, ?_⟩
    show (x + y).degree.toNat = x.degree.toNat + y.degree.toNat
    rw [map_add, UInt32.toNat_add]
    exact Nat.mod_eq_of_lt (Nat.lt_succ_of_le h)
  · intro k hk
    obtain ⟨z, hz, rfl⟩ := hk
    obtain ⟨x, hx, y, hy, rfl⟩ := Set.mem_add.mp hz
    calc (x + y).degree.toNat
        ≤ x.degree.toNat + y.degree.toNat := by rw [map_add]; exact toNat_add_le _ _
      _ ≤ m + n := Nat.add_le_add (hS.2 ⟨x, hx, rfl⟩) (hT.2 ⟨y, hy, rfl⟩)

theorem isGreatest_degrees_nsmul (hS : IsGreatest (degrees S) m) (n : ℕ)
    (h : n * m ≤ Monomial.largestWord) : IsGreatest (degrees (n • S)) (n * m) := by
  induction n with
  | zero =>
    have hzero : degrees (0 • S) = {0} := by
      rw [zero_nsmul]
      exact Set.image_singleton.trans (by rw [map_zero, UInt32.toNat_zero])
    rw [hzero, Nat.zero_mul]
    exact isGreatest_singleton
  | succ n ih =>
    rw [Nat.succ_mul] at h ⊢
    rw [succ_nsmul]
    exact isGreatest_degrees_add (ih ((Nat.le_add_right _ _).trans h)) hS h

end Greatest

/-! ## Derivatives -/

/-- A derivative has a lower degree, down to zero, if the degrees fit in a word. -/
theorem Scalar.toNat_degree_derivative_le [Zero α] [One α] [NatCast α] [Mul α] {s : Scalar α}
    (hs : s.FactorsIn P) (hfit : s.DegreesFit) (v : Variable α) :
    (s.derivative v).degree.toNat ≤ s.degree.toNat - 1 := by
  refine toNat_degree_le_iff.mpr fun d hd => ?_
  rcases mem_toMonomials_derivative hd with ⟨c, rfl⟩ | ⟨m, hm, hderived⟩
  · exact Nat.zero_le _
  · have hlength := (hs.each m hm).length_eq
    have hdlength := Monomial.length_eq_of_derivative? hderived
    have hone : d.exactMap.degree + 1 = m.exactMap.degree := by
      rw [← ((hfit m hm).totalsFit hlength).exactMap_derivative? hderived, map_add,
        Finsupp.degree_single]
    have hdfit : d.DegreeFits := by
      have hmfit := hfit m hm
      rw [Monomial.DegreeFits, ← Monomial.degree_exactMap hlength] at hmfit
      rw [Monomial.DegreeFits, ← Monomial.degree_exactMap hdlength]
      omega
    have hle := toNat_degree_le_iff.mp le_rfl m hm
    rw [(hfit m hm).toNat_degree hlength] at hle
    rw [hdfit.toNat_degree hdlength]
    omega

namespace Expression

/-! ## The degree as a greatest one -/

theorem toNat_degree_le_iff {e : Expression α} {n : ℕ} :
    e.degree.toNat ≤ n ↔ ∀ s ∈ e.elements, s.degree.toNat ≤ n :=
  (toNat_foldl_max_le_iff e.elements 0).trans (and_iff_right (Nat.zero_le n))

theorem isLinear_iff {e : Expression α} : e.isLinear = true ↔ e.degree.toNat ≤ 1 := by
  rw [toNat_degree_le_iff, isLinear, List.all_eq_true]
  exact forall₂_congr fun s _ => decide_eq_true_iff.trans UInt32.le_iff_toNat_le

section Degree

variable [One α]

theorem toNat_degree_le_iff_exponents {e : Expression α} (he : e.FactorsIn P) {n : ℕ} :
    e.degree.toNat ≤ n ↔ ∀ x ∈ e.exponents, x.degree.toNat ≤ n := by
  rw [toNat_degree_le_iff]
  constructor
  · intro h x hx
    obtain ⟨s, hs, hx⟩ := hx
    obtain ⟨m, hm, rfl⟩ := mem_termExponents.mp hx
    rw [← Monomial.degree_eq ((he.each s hs).each m hm).length_eq]
    exact Scalar.toNat_degree_le_iff.mp (h s hs) m hm
  · intro h s hs
    refine Scalar.toNat_degree_le_iff.mpr fun m hm => ?_
    rw [Monomial.degree_eq ((he.each s hs).each m hm).length_eq]
    exact h _ ⟨s, hs, mem_termExponents.mpr ⟨m, hm, rfl⟩⟩

theorem exponents_nonempty {e : Expression α} (he : e.FactorsIn P) : e.exponents.Nonempty := by
  obtain ⟨s, hs⟩ := List.exists_mem_of_ne_nil _ he.ne_nil
  obtain ⟨m, hm⟩ := List.exists_mem_of_ne_nil _ (he.each s hs).ne_nil
  exact ⟨m.exponentMap, s, hs, mem_termExponents.mpr ⟨m, hm, rfl⟩⟩

/-- **The degree of a well-formed expression is the greatest one of its exponent maps.** -/
theorem isGreatest_degree {e : Expression α} (he : e.FactorsIn P) :
    IsGreatest (degrees e.exponents) e.degree.toNat := by
  have hlub : IsLUB (degrees e.exponents) e.degree.toNat := by
    refine isLUB_iff_le_iff.mpr fun n => ?_
    rw [toNat_degree_le_iff_exponents he, mem_upperBounds, degrees, Set.forall_mem_image]
  -- there are no limits among the natural numbers, so the least upper bound is attained
  have hattained := hlub.mem_of_not_isSuccLimit ((exponents_nonempty he).image _)
    Order.not_isSuccLimit_of_isSuccArchimedean
  exact ⟨hattained, hlub.1⟩

/-! ## The operations -/

section Operations

variable {l r e : Expression α}

/-- What passes its check has its degree determined by its exponent maps. -/
theorem toNat_degree_unique (he : e.check = .ok ()) {S : Set (VariableId →₀ UInt32)} {d : ℕ}
    (h : e.exponents = S) (hS : IsGreatest (degrees S) d) : e.degree.toNat = d :=
  (isGreatest_degree (check_eq_ok.mp he)).unique (h ▸ hS)

theorem degree_of_union (he : e.check = .ok ()) (hl : l.FactorsIn P) (hr : r.FactorsIn P)
    (h : e.exponents = l.exponents ∪ r.exponents) : e.degree = max l.degree r.degree := by
  refine UInt32.toNat_inj.mp ((toNat_degree_unique he h ?_).trans (toNat_max _ _).symm)
  rw [degrees, Set.image_union]
  exact (isGreatest_degree hl).union (isGreatest_degree hr)

theorem degree_plus [Add α] (h : (l.plus r).outcome = .ok e) :
    e.degree = max l.degree r.degree := by
  obtain ⟨hl, hr⟩ := factorsIn_of_checkOperands h
  exact degree_of_union ((ensures_plus l r).value e h).1 hl hr (exponents_plus h)

theorem degree_minus [Add α] [Neg α] [Mul α] (h : (l.minus r).outcome = .ok e) :
    e.degree = max l.degree r.degree := by
  obtain ⟨hl, hr⟩ := factorsIn_of_checkOperands h
  exact degree_of_union ((ensures_minus l r).value e h).1 hl hr (exponents_minus h)

theorem toNat_degree_multiply [Zero α] [Add α] [Mul α] [BEq α]
    (h : (l.multiply r).outcome = .ok e) (hscalar : l.form = .scalar ∨ r.form = .scalar)
    (hfit : l.degree.toNat + r.degree.toNat ≤ Monomial.largestWord) :
    e.degree.toNat = l.degree.toNat + r.degree.toNat := by
  obtain ⟨hl, hr⟩ := factorsIn_of_checkOperands h
  exact toNat_degree_unique ((ensures_multiply l r).value e h).1 (exponents_multiply h hscalar)
    (isGreatest_degrees_add (isGreatest_degree hl) (isGreatest_degree hr) hfit)

theorem toNat_degree_power [Mul α] {n : ℕ} (h : (e.power n).outcome = .ok r)
    (hfit : n * e.degree.toNat ≤ Monomial.largestWord) :
    r.degree.toNat = n * e.degree.toNat := by
  have he := check_eq_ok.mp (power_eq_ok.mp h).1
  exact toNat_degree_unique ((ensures_power e n).value r h).1 (exponents_power h)
    (isGreatest_degrees_nsmul (isGreatest_degree he) n hfit)

theorem toNat_degree_simplify_le [Zero α] [Add α] [BEq α] (h : e.simplify.outcome = .ok r) :
    r.degree.toNat ≤ e.degree.toNat := by
  have he := check_eq_ok.mp (simplify_eq_ok.mp h).1
  have hr := check_eq_ok.mp ((ensures_simplify e).value r h).1
  refine (toNat_degree_le_iff_exponents hr).mpr fun x hx => ?_
  rcases exponents_simplify_subset h hx with rfl | hx
  · exact Nat.zero_le _
  · exact (toNat_degree_le_iff_exponents he).mp le_rfl x hx

theorem toNat_degree_derivativeBy_le [Zero α] [NatCast α] [Mul α] {v : Variable α}
    (h : (e.derivativeBy v).outcome = .ok r) (hfit : e.DegreesFit) :
    r.degree.toNat ≤ e.degree.toNat - 1 := by
  obtain ⟨he, -, hr⟩ := derivativeBy_eq_ok.mp h
  have hin := check_eq_ok.mp he
  have hfits := (Grid.fits_ofExpression hin.length_eq).map (·.derivative v)
  have htyped := Grid.isTyped_of_toExpression hfits hr
  refine toNat_degree_le_iff.mpr fun t ht => ?_
  rw [htyped.elements_eq] at ht
  obtain ⟨d, hd, rfl⟩ := List.mem_map.mp ht
  obtain ⟨s, hs, rfl⟩ := List.mem_map.mp hd
  rw [Scalar.toNat_degree_le_iff, Scalar.toMonomials_promote, ← Scalar.toNat_degree_le_iff]
  refine (Scalar.toNat_degree_derivative_le (hin.each s hs) (hfit s hs) v).trans ?_
  exact Nat.sub_le_sub_right (toNat_degree_le_iff.mp le_rfl s hs) 1

end Operations

end Degree

/-! ## The laws of degrees -/

section Laws

variable [Zero α] [One α] [NatCast α] [Add α] [Neg α] [Mul α] [BEq α]

/-- **The laws of degrees**, whatever the numbers are. A valid scalar and a valid expression, which
may be a scalar as well, have a sum and a difference of the greater one of the degrees and a product
of their sum. The scalar has powers of so many times its degree; simplifying does not raise the
degree, and differentiating by a defined variable lowers it by one at least, unless it is zero. Sums
and differences of linear expressions of any form are linear. What is added up has to fit in a word:
the degrees for a product, their multiple for a power, the exponents of a term for a derivative. -/
theorem degree_laws {a b : Expression α} (ha : a.check = .ok ()) (hb : b.check = .ok ())
    (has : a.isScalar = true) :
    ((∃ e, (a.plus b).outcome = .ok e ∧ e.degree = max a.degree b.degree) ∧
      (∃ e, (a.minus b).outcome = .ok e ∧ e.degree = max a.degree b.degree) ∧
      ∃ e, (a.multiply b).outcome = .ok e ∧
        (a.degree.toNat + b.degree.toNat ≤ Monomial.largestWord →
          e.degree.toNat = a.degree.toNat + b.degree.toNat)) ∧
    (∀ n : ℕ, n ≤ maxExponent → ∃ e, (a.power n).outcome = .ok e ∧
      (n * a.degree.toNat ≤ Monomial.largestWord → e.degree.toNat = n * a.degree.toNat)) ∧
    (∃ e, a.simplify.outcome = .ok e ∧ e.degree.toNat ≤ a.degree.toNat) ∧
    (∀ v : Variable α, v.id.isDefined = true → ∃ e, (a.derivativeBy v).outcome = .ok e ∧
      (a.DegreesFit → (1 ≤ a.degree.toNat → e.degree.toNat ≤ a.degree.toNat - 1) ∧
        (a.degree = 0 → e.degree = 0))) ∧
    ∀ l r e : Expression α, (l.plus r).outcome = .ok e ∨ (l.minus r).outcome = .ok e →
      l.isLinear = true → r.isLinear = true → e.isLinear = true := by
  refine ⟨⟨?_, ?_, ?_⟩, fun n hn => ?_, ?_, fun v hv => ?_, fun l r e h hl hr => ?_⟩
  · obtain ⟨e, he⟩ := (decidedBy_plus a b).exists_ok (objection?_eq_none ha hb (.inl has))
    exact ⟨e, he, degree_plus he⟩
  · obtain ⟨e, he⟩ := (decidedBy_minus a b).exists_ok (objection?_eq_none ha hb (.inl has))
    exact ⟨e, he, degree_minus he⟩
  · obtain ⟨e, he⟩ := (decidedBy_multiply a b).exists_ok (objection?_eq_none ha hb (.inl has))
    exact ⟨e, he, toNat_degree_multiply he (.inl (isScalar_iff.mp has))⟩
  · cases a with
    | scalar s =>
      obtain ⟨t, -, ht, -⟩ := exists_power ha hn
      exact ⟨scalar t, ht, toNat_degree_power ht⟩
    | vector | matrix => cases has
  · have hs : a.simplify.outcome = .ok a.simplified := simplify_eq_ok.mpr ⟨ha, rfl⟩
    exact ⟨_, hs, toNat_degree_simplify_le hs⟩
  · obtain ⟨e, he, -⟩ := exists_derivativeBy ha hv
    refine ⟨e, he, fun hfit => ?_⟩
    have hle := toNat_degree_derivativeBy_le he hfit
    refine ⟨fun _ => hle, fun hzero => UInt32.toNat_inj.mp ?_⟩
    rw [hzero, UInt32.toNat_zero] at hle
    exact Nat.le_zero.mp hle
  · have hdegree : e.degree = max l.degree r.degree := h.elim degree_plus degree_minus
    rw [isLinear_iff] at hl hr ⊢
    rw [hdegree, toNat_max]
    exact max_le hl hr

end Laws

/-- Terms that cancel to what is no number, and a term with the coefficient zero. -/
theorem degree_laws_infinity :
    let x : Variable Float := ⟨⟨0⟩, .continuous, 0, 1⟩
    let y : Variable Float := ⟨⟨1⟩, .continuous, 0, 1⟩
    let a : Expression Float := .scalar
      (.polynomial ⟨[⟨1 / 0, [x, y, x], [1, 0, 1]⟩, ⟨-1 / 0, [x], [2]⟩, ⟨3, [y], [1]⟩]⟩)
    let b : Expression Float := .scalar (.monomial ⟨0, [y, x], [1, 2]⟩)
    let l : Expression Float := .vector .variable ⟨[x, y]⟩
    let r : Expression Float := .scalar (.variable x)
    (a.check = .ok () ∧ b.check = .ok () ∧ a.isScalar = true ∧ 2 ≤ maxExponent ∧
      x.id.isDefined = true) ∧
      (∃ e, (a.plus b).outcome = .ok e ∧ e.degree = 3) ∧
      (∃ e, (a.multiply b).outcome = .ok e ∧ e.degree.toNat = 5) ∧
      (∃ e, (a.power 2).outcome = .ok e ∧ e.degree.toNat = 4) ∧
      (∃ e, (a.derivativeBy x).outcome = .ok e ∧ e.degree.toNat ≤ 1) ∧
      (l.isLinear = true ∧ r.isLinear = true) ∧
      ∃ e, (l.plus r).outcome = .ok e ∧ e.isLinear = true := by
  intro x y a b l r
  have ha : a.check = .ok () := rfl
  have hb : b.check = .ok () := rfl
  have hx : x.id.isDefined = true := by decide
  have hmax : 2 ≤ maxExponent := by decide
  have hadegree : a.degree = 2 := rfl
  have hbdegree : b.degree = 3 := rfl
  obtain ⟨⟨hplus, -, hmultiply⟩, hpower, -, hderivative, hlinear⟩ := degree_laws ha hb rfl
  rw [hadegree, hbdegree] at hplus hmultiply
  obtain ⟨m, hm, hmdegree⟩ := hmultiply
  obtain ⟨q, hq, hqdegree⟩ := hpower 2 hmax
  obtain ⟨d, hd, hdegree⟩ := hderivative x hx
  have hfit : a.DegreesFit := by decide
  rw [hadegree] at hqdegree hdegree
  have hsum : ∃ e, (l.plus r).outcome = .ok e := ⟨_, rfl⟩
  obtain ⟨e, he⟩ := hsum
  exact ⟨⟨ha, hb, rfl, hmax, hx⟩, hplus, ⟨m, hm, hmdegree (by decide)⟩,
    ⟨q, hq, hqdegree (by decide)⟩, ⟨d, hd, (hdegree hfit).1 (by decide)⟩, ⟨rfl, rfl⟩, e, he,
    hlinear l r e (.inl he) rfl rfl⟩

end Expression

end DecisionAlgebra
