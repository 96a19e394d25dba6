import DecisionAlgebra.Algebra.Simplify
import DecisionAlgebra.Proofs.Constraints
import Mathlib.Algebra.CharZero.Infinite
import Mathlib.Algebra.MvPolynomial.Funext
import Mathlib.Algebra.Order.Ring.Rat

/-!
# Simplified polynomials decide polynomial identity

What simplifying leaves is canonical: no exponent map twice, and no zero coefficient unless a single
zero stands for the zero polynomial. So the terms are the coefficients of the meaning that are not
zero, and two polynomials of one meaning have the same terms once they are simplified. Over an
infinite field, polynomials with the same values are the same when written exactly, and where their
totals fit in a word that is to have one meaning.
-/

namespace DecisionAlgebra

open MvPolynomial (eval)

variable {α : Type}

/-- The exponent map and the coefficient of every term, in order. What they leave out is the writing
of the factors. -/
noncomputable def Polynomial.powers (p : Polynomial α) : List ((VariableId →₀ UInt32) × α) :=
  p.monomials.map fun m => (m.exponentMap, m.coefficient)

namespace Polynomial

section Semiring

variable [CommSemiring α]

/-! ## The meaning is made of the powers -/

theorem termsMeaning_eq_sum_powers (p : Polynomial α) :
    termsMeaning p.monomials = (p.powers.map fun t => AddMonoidAlgebra.single t.1 t.2).sum := by
  rw [powers, List.map_map]
  rfl

theorem termsMeaning_eq_of_perm {p q : Polynomial α} (h : p.powers.Perm q.powers) :
    termsMeaning p.monomials = termsMeaning q.monomials := by
  rw [termsMeaning_eq_sum_powers, termsMeaning_eq_sum_powers, (h.map _).sum_eq]

/-! ## The powers of a canonical polynomial -/

theorem Canonical.nodup_powers {p : Polynomial α} (hp : Canonical p.monomials) :
    p.powers.Nodup := by
  rw [powers, List.Nodup, List.pairwise_map]
  exact hp.apart.imp fun hne heq => hne (Prod.ext_iff.mp heq).1

/-- A canonical polynomial that means zero is a single zero. -/
theorem Canonical.eq_zero {p : Polynomial α} (hp : Canonical p.monomials) (hne : p.monomials ≠ [])
    (hzero : termsMeaning p.monomials = 0) : p.monomials = [Monomial.constant 0] := by
  refine hp.nonzero.resolve_left fun hnonzero => ?_
  obtain ⟨m, hm⟩ := List.exists_mem_of_ne_nil _ hne
  refine hnonzero m hm ?_
  rw [← coeff_of_apart hp.apart hm, hzero]
  rfl

/-- The terms of a canonical polynomial that does not mean zero are the coefficients of its meaning
that are not zero. -/
theorem Canonical.mem_powers {p : Polynomial α} (hp : Canonical p.monomials)
    (hnonzero : termsMeaning p.monomials ≠ 0) {s : VariableId →₀ UInt32} {c : α} :
    (s, c) ∈ p.powers ↔ c ≠ 0 ∧ (termsMeaning p.monomials).coeff s = c := by
  rw [powers, List.mem_map]
  constructor
  · intro h
    obtain ⟨m, hm, heq⟩ := h
    obtain ⟨rfl, rfl⟩ := Prod.ext_iff.mp heq
    refine ⟨?_, coeff_of_apart hp.apart hm⟩
    rcases hp.nonzero with h | h
    · exact h m hm
    · refine absurd ?_ hnonzero
      rw [h]
      simp
  · intro h
    obtain ⟨hc, rfl⟩ := h
    obtain ⟨m, hm, rfl, -⟩ := exists_mem_of_coeff_ne_zero hc
    exact ⟨m, hm, by rw [coeff_of_apart hp.apart hm]⟩

/-- **Canonical polynomials of one meaning have the same terms**, up to their order. -/
theorem Canonical.perm_powers {p q : Polynomial α} (hp : Canonical p.monomials)
    (hq : Canonical q.monomials) (hpne : p.monomials ≠ []) (hqne : q.monomials ≠ [])
    (h : termsMeaning p.monomials = termsMeaning q.monomials) : p.powers.Perm q.powers := by
  by_cases hzero : termsMeaning p.monomials = 0
  · have hsame : p.monomials = q.monomials :=
      (hp.eq_zero hpne hzero).trans (hq.eq_zero hqne (h ▸ hzero)).symm
    rw [powers, powers, hsame]
  · rw [List.perm_ext_iff_of_nodup hp.nodup_powers hq.nodup_powers]
    intro t
    rw [hp.mem_powers hzero, hq.mem_powers (h ▸ hzero), h]

end Semiring

/-! ## Values -/

section Ring

variable [CommRing α]

/-- Where a valid polynomial has all its factors assigned, it has the value of its exact
polynomial. -/
theorem evaluate_of_assigns {p : Polynomial α} (hp : p.check = .ok ())
    (hpowers : (Scalar.polynomial p).PowersWithin) {x : Point α}
    (hx : x.Assigns (Scalar.polynomial p).stored) :
    (Scalar.polynomial p).evaluate x = .ok (eval x.valuation (termsExact p.monomials)) :=
  (Scalar.evaluate_eq_ok hpowers).mpr
    ⟨Scalar.factorsIn_gives (Scalar.check_eq_ok.mp hp) hx, rfl⟩

variable [IsDomain α] [Infinite α]

/-- Valid polynomials with the same values have the same meaning. -/
theorem meaning_eq_iff_evaluate {p q : Polynomial α} (hp : p.check = .ok ())
    (hq : q.check = .ok ()) (hpt : (Scalar.polynomial p).TotalsWithin maxPower)
    (hqt : (Scalar.polynomial q).TotalsWithin maxPower) :
    termsMeaning p.monomials = termsMeaning q.monomials ↔
      ∀ x : Point α, x.Assigns (Scalar.polynomial p).stored →
        x.Assigns (Scalar.polynomial q).stored →
        ∃ y, (Scalar.polynomial p).evaluate x = .ok y ∧
          (Scalar.polynomial q).evaluate x = .ok y := by
  have hpp := hpt.powersWithin
  have hqp := hqt.powersWithin
  have hword := maxPower_le_largestWord
  have hexact : termsMeaning p.monomials = termsMeaning q.monomials ↔
      termsExact p.monomials = termsExact q.monomials := by
    rw [← inWords_termsExact, ← inWords_termsExact]
    exact ⟨eq_of_inWords_eq (hpt.mono hword).exponentsWithin (hqt.mono hword).exponentsWithin,
      congrArg inWords⟩
  rw [hexact]
  constructor
  · intro h x hxp hxq
    refine ⟨_, evaluate_of_assigns hp hpp hxp, ?_⟩
    rw [evaluate_of_assigns hq hqp hxq, h]
  · intro h
    refine MvPolynomial.funext fun f => ?_
    -- a point that assigns every identifier assigns all that is stored
    let x : Point α := fun id => some (f id)
    have hx : ∀ vs : List (Variable α), x.Assigns vs := fun vs v _ => ⟨f v.id, rfl⟩
    obtain ⟨y, hyp, hyq⟩ := h x (hx _) (hx _)
    rw [evaluate_of_assigns hp hpp (hx _)] at hyp
    rw [evaluate_of_assigns hq hqp (hx _)] at hyq
    exact (Except.ok.inj hyp).trans (Except.ok.inj hyq).symm

/-- A valid polynomial that is zero everywhere means zero. -/
theorem meaning_eq_zero_iff_evaluate {p : Polynomial α} (hp : p.check = .ok ())
    (hpt : (Scalar.polynomial p).TotalsWithin maxPower) :
    termsMeaning p.monomials = 0 ↔ ∀ x : Point α, x.Assigns (Scalar.polynomial p).stored →
      (Scalar.polynomial p).evaluate x = .ok 0 := by
  -- the single zero is a valid polynomial without factors
  let zero : Polynomial α := ⟨[Monomial.constant 0]⟩
  have hzero : termsMeaning zero.monomials = 0 := by
    rw [termsMeaning_cons, termsMeaning_nil, add_zero]
    exact AddMonoidAlgebra.single_zero 0
  have hcheck : zero.check = .ok () :=
    check_eq_ok.mpr (.singleton (Monomial.factorsIn_constant 0))
  have htotals : (Scalar.polynomial zero).TotalsWithin maxPower := by
    intro m hm
    rw [List.mem_singleton.mp hm]
    exact Monomial.totalsWithin_constant _ 0
  have hvalue (x : Point α) : (Scalar.polynomial zero).evaluate x = .ok 0 := by
    rw [evaluate_of_assigns hcheck htotals.powersWithin nofun]
    simp [zero]
  rw [← hzero, meaning_eq_iff_evaluate hp hcheck hpt htotals]
  constructor
  · intro h x hx
    obtain ⟨y, hy, hyzero⟩ := h x hx nofun
    rw [hy, ← hyzero, hvalue]
  · intro h x hx _
    exact ⟨0, h x hx, hvalue x⟩

variable [BEq α] [LawfulBEq α]

/-- **Simplifying decides polynomial identity.** Two valid polynomials without a total exponent
above the largest power have the same value wherever all their factors are assigned exactly when
what simplifying makes of them has the same powers with the same coefficients, in whatever order.
Such a polynomial is zero everywhere exactly when it simplifies to a single zero. -/
theorem simplify_decides {p q : Polynomial α} (hp : p.check = .ok ()) (hq : q.check = .ok ())
    (hpt : (Scalar.polynomial p).TotalsWithin maxPower)
    (hqt : (Scalar.polynomial q).TotalsWithin maxPower) :
    ∃ p' q', (Scalar.polynomial p).simplify = .ok (.polynomial p') ∧
      (Scalar.polynomial q).simplify = .ok (.polynomial q') ∧
      ((∀ x : Point α, x.Assigns (Scalar.polynomial p).stored →
          x.Assigns (Scalar.polynomial q).stored →
          ∃ y, (Scalar.polynomial p).evaluate x = .ok y ∧
            (Scalar.polynomial q).evaluate x = .ok y) ↔ p'.powers.Perm q'.powers) ∧
      ((∀ x : Point α, x.Assigns (Scalar.polynomial p).stored →
          (Scalar.polynomial p).evaluate x = .ok 0) ↔ p' = ⟨[Monomial.constant 0]⟩) := by
  have hpin := Polynomial.check_eq_ok.mp hp
  have hqin := Polynomial.check_eq_ok.mp hq
  have hpne := (termsIn_simplified fun m hm => (hpin.each m hm).normalized).ne_nil
  have hqne := (termsIn_simplified fun m hm => (hqin.each m hm).normalized).ne_nil
  have hpc := canonical_simplified p
  have hqc := canonical_simplified q
  have hsimplify {r : Polynomial α} (hr : r.check = .ok ()) :
      (Scalar.polynomial r).simplify = .ok (.polynomial r.simplified) :=
    unit_bind_eq_ok.mpr ⟨hr, rfl⟩
  refine ⟨p.simplified, q.simplified, hsimplify hp, hsimplify hq, ?_, ?_⟩
  · rw [← meaning_eq_iff_evaluate hp hq hpt hqt, ← termsMeaning_simplified p,
      ← termsMeaning_simplified q]
    exact ⟨hpc.perm_powers hqc hpne hqne, termsMeaning_eq_of_perm⟩
  · rw [← meaning_eq_zero_iff_evaluate hp hpt, ← termsMeaning_simplified p]
    constructor
    · intro hzero
      rw [← hpc.eq_zero hpne hzero]
    · intro hzero
      rw [hzero, termsMeaning_cons, termsMeaning_nil, add_zero]
      exact AddMonoidAlgebra.single_zero 0

end Ring

/-- `x y + y x` and `2 y x z^0` simplify to the same, so they are equal wherever `z` has a value
too. -/
theorem simplify_decides_product :
    let x : Variable ℚ := .numbered 0
    let y : Variable ℚ := .numbered 1
    let z : Variable ℚ := .numbered 2
    let p : Polynomial ℚ := ⟨[⟨1, [x, y], [1, 1]⟩, ⟨1, [y, x], [1, 1]⟩]⟩
    let q : Polynomial ℚ := ⟨[⟨2, [y, x, z], [1, 1, 0]⟩]⟩
    p.check = .ok () ∧ q.check = .ok () ∧ (Scalar.polynomial p).TotalsWithin maxPower ∧
      (Scalar.polynomial q).TotalsWithin maxPower ∧
      ∀ a : Point ℚ, a.Assigns (Scalar.polynomial p).stored →
        a.Assigns (Scalar.polynomial q).stored →
        ∃ c, (Scalar.polynomial p).evaluate a = .ok c ∧
          (Scalar.polynomial q).evaluate a = .ok c := by
  intro x y z p q
  have hp : p.check = .ok () := by cbv
  have hq : q.check = .ok () := by cbv
  have hpt : (Scalar.polynomial p).TotalsWithin maxPower := by decide
  have hqt : (Scalar.polynomial q).TotalsWithin maxPower := by decide
  obtain ⟨p', q', hp', hq', hiff, -⟩ := simplify_decides hp hq hpt hqt
  refine ⟨hp, hq, hpt, hqt, hiff.mpr ?_⟩
  have hpsimple : (Scalar.polynomial p).simplify = .ok (.polynomial ⟨[⟨2, [x, y], [1, 1]⟩]⟩) := by
    cbv
  have hqsimple : (Scalar.polynomial q).simplify = .ok (.polynomial ⟨[⟨2, [y, x], [1, 1]⟩]⟩) := by
    cbv
  cases hpsimple.symm.trans hp'
  cases hqsimple.symm.trans hq'
  have hexp : Monomial.exponentMap (⟨2, [x, y], [1, 1]⟩ : Monomial ℚ) =
      Monomial.exponentMap (⟨2, [y, x], [1, 1]⟩ : Monomial ℚ) := by
    simp only [Monomial.exponentMap, Monomial.factors, List.zip_cons_cons, List.zip_nil_right,
      exponentSum_cons, exponentSum_nil, add_zero]
    exact add_comm _ _
  rw [powers, powers, List.map_singleton, List.map_singleton, hexp]

end Polynomial

end DecisionAlgebra
