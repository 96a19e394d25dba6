import DecisionAlgebra.Linear.Implication
import DecisionAlgebra.Proofs.Constraints
import DecisionAlgebra.Proofs.Linear.Difference
import Mathlib.Algebra.Order.Field.Basic
import Mathlib.Algebra.Order.Ring.Rat

/-!
# Implication between bounds

A constraint whose sides differ by a linear polynomial in one variable is a bound on that variable:
the variable has a coefficient that is not zero, because terms with coefficient zero are dropped,
and dividing by it moves everything else to the right. One bound implies another when the numbers
within the first are within the second. Each of the nine pairs of senses is decided by the two
values; where the answer is no, a number just outside of the second bound shows it.
-/

namespace DecisionAlgebra

open MvPolynomial (coeff eval)

variable {α : Type} {P : VariableId → Prop}

/-! ## Bounds on numbers -/

section Bounds

variable [Field α] [LinearOrder α] [IsStrictOrderedRing α] [BEq α] [LawfulBEq α]

/-- Whether a number is within a bound. -/
def Bound.holds (b : Bound α) (t : α) : Bool := b.sense.holds t b.value

/-- An upper bound implies the upper bounds that are not below it, and nothing else. -/
theorem Sense.forall_of_le {s : Sense} {x y : α} :
    (∀ t, t ≤ x → s.holds t y = true) ↔ s = .lessEqual ∧ x ≤ y := by
  constructor
  · intro h
    have hx := h x le_rfl
    -- below both `x` and `y`
    have hlow := h (min x (y - 1)) (min_le_left _ _)
    have hlt : min x (y - 1) < y := (min_le_right _ _).trans_lt (sub_one_lt y)
    cases s with
    | lessEqual => exact ⟨rfl, lessEqual_holds.mp hx⟩
    | greaterEqual => exact absurd (greaterEqual_holds.mp hlow) (not_le.mpr hlt)
    | equal => exact absurd (equal_holds.mp hlow) hlt.ne
  · intro h t ht
    obtain ⟨rfl, hxy⟩ := h
    exact lessEqual_holds.mpr (ht.trans hxy)

/-- A lower bound implies the lower bounds that are not above it, and nothing else. -/
theorem Sense.forall_of_ge {s : Sense} {x y : α} :
    (∀ t, x ≤ t → s.holds t y = true) ↔ s = .greaterEqual ∧ y ≤ x := by
  constructor
  · intro h
    have hx := h x le_rfl
    -- above both `x` and `y`
    have hhigh := h (max x (y + 1)) (le_max_left _ _)
    have hlt : y < max x (y + 1) := (lt_add_one y).trans_le (le_max_right _ _)
    cases s with
    | lessEqual => exact absurd (lessEqual_holds.mp hhigh) (not_le.mpr hlt)
    | greaterEqual => exact ⟨rfl, greaterEqual_holds.mp hx⟩
    | equal => exact absurd (equal_holds.mp hhigh) hlt.ne'
  · intro h t ht
    obtain ⟨rfl, hyx⟩ := h
    exact greaterEqual_holds.mpr (hyx.trans ht)

/-- **A bound implies another exactly when every number within the first is within the second.** -/
theorem Bound.implies_eq_true {a b : Bound α} :
    a.implies b = true ↔ ∀ t, a.holds t = true → b.holds t = true := by
  obtain ⟨_, s, x⟩ := a
  obtain ⟨_, s', y⟩ := b
  cases s with
  | lessEqual =>
    have h := Sense.forall_of_le (s := s') (x := x) (y := y)
    simp only [holds, Sense.lessEqual_holds, h]
    cases s' <;> simp [implies]
  | greaterEqual =>
    have h := Sense.forall_of_ge (s := s') (x := x) (y := y)
    simp only [holds, Sense.greaterEqual_holds, h]
    cases s' <;> simp [implies]
  | equal =>
    simp only [holds, Sense.equal_holds, forall_eq]
    cases s' <;> rfl

/-- Dividing by the coefficient of a variable turns the sense around when it is negative. -/
theorem Sense.holds_div {s : Sense} {l r k c t : α} (hk : k ≠ 0) (h : l - r = k * t - c) :
    s.holds l r = (if k < 0 then s.flipped else s).holds t (c / k) := by
  have hle : l ≤ r ↔ k * t ≤ c := by rw [← sub_nonpos, h, sub_nonpos]
  have hge : r ≤ l ↔ c ≤ k * t := by rw [← sub_nonneg, h, sub_nonneg]
  have heq : l = r ↔ k * t = c := by rw [← sub_eq_zero, h, sub_eq_zero]
  have hdiv : t = c / k ↔ k * t = c := by rw [eq_div_iff hk, mul_comm]
  rw [Bool.eq_iff_iff]
  by_cases hneg : k < 0
  · rw [if_pos hneg]
    cases s with
    | lessEqual =>
      rw [flipped, lessEqual_holds, greaterEqual_holds, hle, div_le_iff_of_neg' hneg]
    | greaterEqual =>
      rw [flipped, greaterEqual_holds, lessEqual_holds, hge, le_div_iff_of_neg' hneg]
    | equal => rw [flipped, equal_holds, equal_holds, heq, hdiv]
  · have hpos : 0 < k := lt_of_le_of_ne (not_lt.mp hneg) hk.symm
    rw [if_neg hneg]
    cases s with
    | lessEqual => rw [lessEqual_holds, lessEqual_holds, hle, le_div_iff₀' hpos]
    | greaterEqual => rw [greaterEqual_holds, greaterEqual_holds, hge, div_le_iff₀' hpos]
    | equal => rw [equal_holds, equal_holds, heq, hdiv]

end Bounds

/-! ## Constraints on one variable -/

section Ring

variable [CommRing α]

/-- The sides differ by a linear polynomial in exactly this variable. -/
def ScalarConstraint.IsBoundOn (c : ScalarConstraint α) (id : VariableId) : Prop :=
  c.net.totalDegree ≤ 1 ∧ c.net.vars = {id}

/-- The only variable of a linear polynomial has a coefficient. -/
theorem ScalarConstraint.IsBoundOn.netCoefficient_ne_zero {c : ScalarConstraint α}
    {id : VariableId} (h : c.IsBoundOn id) : c.netCoefficient id ≠ 0 := by
  obtain ⟨hdegree, hvars⟩ := h
  have hmem : id ∈ c.net.vars := hvars ▸ Finset.mem_singleton_self id
  obtain ⟨s, hs, hid⟩ := (MvPolynomial.mem_vars_iff_mem_support id).mp hmem
  have hle := totalDegree_le_iff.mp hdegree s hs
  have hpos : s id ≠ 0 := Finsupp.mem_support_iff.mp hid
  have hsingle : s = Finsupp.single id 1 := by
    -- what `s` has besides `id` is of degree zero
    have hsplit : Finsupp.single id 1 ≤ s := Finsupp.single_le_iff.mpr (Nat.pos_of_ne_zero hpos)
    have hrest : (s - Finsupp.single id 1).degree = 0 := by
      have hsum := congrArg Finsupp.degree (tsub_add_cancel_of_le hsplit)
      rw [map_add, Finsupp.degree_single] at hsum
      omega
    have hzero := (Finsupp.degree_eq_zero_iff _).mp hrest
    exact le_antisymm (tsub_eq_zero_iff_le.mp hzero) hsplit
  rw [netCoefficient, ← hsingle]
  exact MvPolynomial.mem_support_iff.mp hs

/-- Terms that are zero or the one variable sum to the slope times the variable. -/
theorem Polynomial.termsExact_eq_slope {p : Polynomial α} {v : Variable α}
    (hterms : ∀ m ∈ p.monomials, m.IsLinearTerm)
    (hv : ∀ m ∈ p.monomials, ∀ w, m.linearVariable = some w → w.id = v.id) :
    termsExact p.monomials = MvPolynomial.monomial (Finsupp.single v.id 1) (p.slope v) := by
  have hsum : ∀ ms : List (Monomial α), (∀ m ∈ ms, m.IsLinearTerm) →
      (∀ m ∈ ms, ∀ w, m.linearVariable = some w → w.id = v.id) →
      termsExact ms = MvPolynomial.monomial (Finsupp.single v.id 1)
        ((ms.filter fun m => m.linearVariable == some v).map (·.coefficient)).sum := by
    intro ms
    induction ms with
    | nil => intro _ _; simp
    | cons m ms ih =>
      intro hlinear hsame
      have hrest := ih (fun n hn => hlinear n (List.mem_cons_of_mem _ hn))
        fun n hn => hsame n (List.mem_cons_of_mem _ hn)
      rw [termsExact_cons, hrest]
      cases hlinear m List.mem_cons_self with
      | zero hvariable hcoefficient =>
        have hm : m.exactMeaning = 0 := by rw [Monomial.exactMeaning, hcoefficient, map_zero]
        rw [hm, zero_add, List.filter_cons_of_neg (by simp [hvariable])]
      | term w hvariable hexponents =>
        have hid := hsame m List.mem_cons_self w hvariable
        have hkept : (m :: ms).filter (fun m => m.linearVariable == some v) =
            m :: ms.filter (fun m => m.linearVariable == some v) := by
          refine List.filter_cons_of_pos ?_
          rw [hvariable]
          exact Variable.beq_iff.mpr hid
        rw [hkept, List.map_cons, List.sum_cons, map_add, Monomial.exactMeaning, hexponents, hid]
  rw [hsum p.monomials hterms hv, slope, total_eq]

namespace ScalarConstraint

variable [BEq α] [LawfulBEq α] {c : ScalarConstraint α} {id : VariableId}
variable (hin : c.FactorsIn P) (hfit : c.DegreesFit)
include hin hfit

/-- A split constraint keeps the variables of the difference. -/
theorem mem_ids_occurring_split :
    id ∈ c.split.1.occurring.map (·.id) ↔ id ∈ c.net.vars := by
  rw [Polynomial.mem_ids_occurring, MvPolynomial.mem_vars_iff_mem_support]
  constructor
  · intro h
    obtain ⟨m, hm, hpos⟩ := h
    rcases Polynomial.mem_withoutConstant hm with ⟨hmem, hdegree⟩ | rfl
    · exact ⟨m.exactMap, exactMap_mem_support hin hfit hmem hdegree,
        Finsupp.mem_support_iff.mpr hpos.ne'⟩
    · exact absurd hpos (lt_irrefl 0)
  · intro h
    obtain ⟨s, hs, hid⟩ := h
    obtain ⟨m, hm, rfl⟩ := exists_mem_difference hin hfit (MvPolynomial.mem_support_iff.mp hs)
    have hpos : 0 < m.exactMap id := Nat.pos_of_ne_zero (Finsupp.mem_support_iff.mp hid)
    refine ⟨m, Polynomial.mem_withoutConstant_of_pos hm ?_, hpos⟩
    rw [UInt32.lt_iff_toNat_lt, toNat_degree_of_mem_difference hin hfit hm]
    exact hpos.trans_le (Finsupp.le_degree id _)

/-- A split constraint is linear when the difference is. -/
theorem isLinear_split : c.split.1.isLinear = true ↔ c.net.totalDegree ≤ 1 := by
  unfold Polynomial.isLinear
  rw [List.all_eq_true]
  constructor
  · intro h
    rw [totalDegree_le_iff]
    intro s hs
    obtain ⟨m, hm, rfl⟩ := exists_mem_difference hin hfit (MvPolynomial.mem_support_iff.mp hs)
    rw [← toNat_degree_of_mem_difference hin hfit hm]
    by_contra hlt
    have hpos : 0 < m.degree := UInt32.lt_iff_toNat_lt.mpr (Nat.pos_of_ne_zero (by omega))
    have hle := decide_eq_true_eq.mp (h m (Polynomial.mem_withoutConstant_of_pos hm hpos))
    exact hlt (UInt32.le_iff_toNat_le.mp hle)
  · intro h m hm
    unfold Monomial.isLinear
    rw [decide_eq_true_eq]
    rw [UInt32.le_iff_toNat_le]
    rcases Polynomial.mem_withoutConstant hm with ⟨hmem, -⟩ | rfl
    · exact toNat_degree_le_of_totalDegree hin hfit h hmem
    · exact Nat.zero_le 1

/-- The test for one variable and degree one finds the constraints that are bounds. -/
theorem isBoundOn_iff :
    c.IsBoundOn id ↔ ∃ v, c.split.1.occurring = [v] ∧ c.split.1.isLinear = true ∧ v.id = id := by
  have hnodup : (c.split.1.occurring.map (·.id)).Nodup := Variable.nodup_ids_distinct _
  constructor
  · intro h
    have hids : c.split.1.occurring.map (·.id) = [id] := by
      refine List.perm_singleton.mp ((List.perm_ext_iff_of_nodup hnodup
        (List.nodup_singleton id)).mpr fun i => ?_)
      rw [mem_ids_occurring_split hin hfit, h.2, Finset.mem_singleton, List.mem_singleton]
    obtain ⟨v, hv, hid⟩ := List.map_eq_singleton_iff.mp hids
    exact ⟨v, hv, (isLinear_split hin hfit).mpr h.1, hid⟩
  · intro h
    obtain ⟨v, hv, hlinear, rfl⟩ := h
    refine ⟨(isLinear_split hin hfit).mp hlinear, Finset.ext fun i => ?_⟩
    rw [← mem_ids_occurring_split hin hfit, hv]
    simp

/-- The difference of a bound is its slope times its variable minus the constant. -/
theorem net_of_isBoundOn {v : Variable α} (h : c.IsBoundOn v.id) :
    c.net = MvPolynomial.monomial (Finsupp.single v.id 1) (c.split.1.slope v) -
      MvPolynomial.C c.split.2 := by
  have hsame : ∀ m ∈ c.split.1.monomials, ∀ w, m.linearVariable = some w → w.id = v.id := by
    intro m hm w hw
    have hnet := (exists_linearVariable_iff hin hfit).mp ⟨m, hm, w, hw, rfl⟩
    have hmem : w.id ∈ c.net.vars :=
      (MvPolynomial.mem_vars_iff_mem_support _).mpr
        ⟨_, MvPolynomial.mem_support_iff.mpr hnet, by simp⟩
    rw [h.2] at hmem
    exact Finset.mem_singleton.mp hmem
  rw [eq_sub_iff_add_eq, ← termsExact_split_eq_net hin hfit]
  exact Polynomial.termsExact_eq_slope
    (fun m hm => isLinearTerm_of_mem_split hin hfit h.1 hm) hsame

theorem slope_ne_zero {v : Variable α} (h : c.IsBoundOn v.id) : c.split.1.slope v ≠ 0 := by
  have hne := h.netCoefficient_ne_zero
  have hzero : coeff (Finsupp.single v.id 1)
      (MvPolynomial.C c.split.2 : MvPolynomial VariableId α) = 0 := by
    rw [MvPolynomial.coeff_C, if_neg]
    exact fun h0 => one_ne_zero (Finsupp.single_eq_zero.mp h0.symm)
  rwa [netCoefficient, net_of_isBoundOn hin hfit h, MvPolynomial.coeff_sub, hzero, sub_zero,
    MvPolynomial.coeff_monomial, if_pos rfl] at hne

end ScalarConstraint

end Ring

/-! ## Deciding implication -/

section Field

variable [Field α] [LinearOrder α] [BEq α] [Numeral α]

namespace ScalarConstraint

variable {c : ScalarConstraint α} {side : Side} {bd : Bound α}

theorem bound_eq_ok :
    c.bound side = .ok bd ↔ c.check = .ok () ∧
      ∃ v, c.split.1.occurring = [v] ∧ c.split.1.isLinear = true ∧
        bd = ⟨v.id, if c.split.1.slope v < 0 then c.sense.flipped else c.sense,
          c.split.2 / c.split.1.slope v⟩ := by
  unfold bound
  cases hc : c.check with
  | error e => simp
  | ok u =>
    simp only [true_and]
    split
    next v hv =>
      by_cases hlinear : c.split.1.isLinear = true
      · rw [if_pos hlinear, hv]
        constructor
        · intro h
          exact ⟨v, rfl, hlinear, (Except.ok.inj h).symm⟩
        · intro h
          obtain ⟨w, hw, -, rfl⟩ := h
          obtain rfl : v = w := List.singleton_inj.mp hw
          rfl
      · rw [if_neg hlinear]
        exact ⟨nofun, fun h => absurd h.choose_spec.2.1 hlinear⟩
    next vs hvs =>
      refine ⟨nofun, fun h => ?_⟩
      obtain ⟨v, hv, -⟩ := h
      exact absurd hv (hvs v)

theorem implies_eq_ok {a b : ScalarConstraint α} {implied : Bool} :
    (a.implies b).outcome = .ok implied ↔ ∃ x y, a.bound .left = .ok x ∧ b.bound .right = .ok y ∧
      x.variableId = y.variableId ∧ implied = x.implies y := by
  unfold implies
  rw [Traced.outcome_bind, bind_eq_ok]
  refine exists_congr fun x => ?_
  rw [Traced.outcome_quiet, Attempt.checked_eq_ok, Traced.outcome_bind, bind_eq_ok,
    ← exists_and_left]
  refine exists_congr fun y => and_congr_right fun _ => ?_
  rw [Traced.outcome_quiet, Attempt.checked_eq_ok]
  refine and_congr_right fun _ => ?_
  by_cases hid : x.variableId = y.variableId
  · rw [if_pos hid, Traced.outcome_bind, unit_bind_eq_ok]
    exact ⟨fun h => ⟨hid, (Except.ok.inj h.2).symm⟩, fun h => ⟨rfl, congrArg Except.ok h.2.symm⟩⟩
  · rw [if_neg hid]
    exact ⟨nofun, fun h => absurd h.1 hid⟩

variable [LawfulBEq α]

/-- There is a bound on a variable exactly for the valid constraints that are one. -/
theorem exists_bound (hfit : c.DegreesFit) {id : VariableId} :
    (∃ bd, c.bound side = .ok bd ∧ bd.variableId = id) ↔ c.check = .ok () ∧ c.IsBoundOn id := by
  simp only [bound_eq_ok]
  constructor
  · intro h
    obtain ⟨_, ⟨hc, v, hv, hlinear, rfl⟩, hid⟩ := h
    exact ⟨hc, (isBoundOn_iff (check_eq_ok.mp hc) hfit).mpr ⟨v, hv, hlinear, hid⟩⟩
  · intro h
    obtain ⟨hc, hbound⟩ := h
    obtain ⟨v, hv, hlinear, hid⟩ := (isBoundOn_iff (check_eq_ok.mp hc) hfit).mp hbound
    exact ⟨_, ⟨hc, v, hv, hlinear, rfl⟩, hid⟩

variable [IsStrictOrderedRing α]

/-- At a point that assigns its variables, a bound is true when the value is within it. -/
theorem evaluate_eq_holds (h : c.bound side = .ok bd) (hfit : c.DegreesFit)
    (hpowers : c.PowersWithin) {p : Point α} (hp : p.Assigns c.stored) :
    c.evaluate p = .ok (bd.holds (p.valuation bd.variableId)) := by
  obtain ⟨hc, v, hv, hlinear, rfl⟩ := bound_eq_ok.mp h
  have hin := check_eq_ok.mp hc
  have hbound : c.IsBoundOn v.id := (isBoundOn_iff hin hfit).mpr ⟨v, hv, hlinear, rfl⟩
  have hdifference : eval p.valuation c.left.exactMeaning - eval p.valuation c.right.exactMeaning =
      c.split.1.slope v * p.valuation v.id - c.split.2 := by
    rw [← map_sub]
    show eval p.valuation c.net = _
    rw [net_of_isBoundOn hin hfit hbound, map_sub, MvPolynomial.eval_C, eval_linear]
  refine (evaluate_eq_ok hpowers).mpr ⟨factorsIn_gives hin hp, Eq.symm ?_⟩
  exact Sense.holds_div (slope_ne_zero hin hfit hbound) hdifference

end ScalarConstraint

end Field

end DecisionAlgebra
