import DecisionAlgebra.Algebra.Simplify
import DecisionAlgebra.Proofs.Constraints
import Mathlib.Algebra.Ring.Parity

/-!
# Powers beyond the cap

Evaluation takes no power above `maxPower`: a larger stored exponent counts as `maxPower`. So the
value of a scalar is the sum of its monomials with all exponents capped. As long as no stored
exponent is above the cap, that is the sum as it is written, and simplifying does not change it.

Beyond the cap it is another number. The cap is odd, so an even exponent above it turns the sign at
a base of minus one, and merging two factors within the cap can be enough to get there.
-/

namespace DecisionAlgebra

open MvPolynomial (eval)

variable {α : Type}

/-! ## Sums of powers -/

/-- The coefficient times the powers of the factors, where `cut` gives the exponent that is taken
for the stored one. -/
def Monomial.powerProduct [CommRing α] (cut : Nat → Nat) (x : VariableId → α) (m : Monomial α) :
    α :=
  m.coefficient * (m.factors.map fun f => x f.1.id ^ cut f.2.toNat).prod

/-- The sum of the monomials, each a product of powers. -/
def Scalar.powerSum [CommRing α] (cut : Nat → Nat) (x : VariableId → α) (s : Scalar α) : α :=
  (s.toMonomials.map (·.powerProduct cut x)).sum

section Ring

variable [CommRing α] {p : Point α}

theorem Monomial.powerProduct_congr {cut cut' : Nat → Nat} {m : Monomial α}
    (h : ∀ f ∈ m.factors, cut f.2.toNat = cut' f.2.toNat) (x : VariableId → α) :
    m.powerProduct cut x = m.powerProduct cut' x := by
  have hpowers : (m.factors.map fun f => x f.1.id ^ cut f.2.toNat) =
      m.factors.map fun f => x f.1.id ^ cut' f.2.toNat :=
    List.map_congr_left fun f hf => by rw [h f hf]
  rw [powerProduct, powerProduct, hpowers]

/-- No exponent within the cap is cut. -/
theorem Scalar.powerSum_capped {s : Scalar α} (hs : s.PowersWithin) (x : VariableId → α) :
    s.powerSum (min · maxPower) x = s.powerSum (fun e => e) x := by
  have hterms : s.toMonomials.map (·.powerProduct (min · maxPower) x) =
      s.toMonomials.map (·.powerProduct (fun e => e) x) :=
    List.map_congr_left fun m hm =>
      Monomial.powerProduct_congr (fun f hf => Nat.min_eq_left (hs m hm f hf)) x
  rw [powerSum, powerSum, hterms]

/-! ## Evaluation -/

theorem Monomial.foldlM_factors_eq {fs : List (Variable α × UInt32)}
    (hfs : ∀ f ∈ fs, ∃ y, p f.1.id = some y) :
    ∀ c : α, fs.foldlM (fun acc f => do
        return acc * factorPower (← p.value f.1) f.2.toNat) c =
      .ok (c * (fs.map fun f => p.valuation f.1.id ^ min f.2.toNat maxPower).prod) := by
  induction fs with
  | nil => intro c; rw [List.map_nil, List.prod_nil, mul_one]; rfl
  | cons f fs ih =>
    intro c
    obtain ⟨y, hy⟩ := hfs f List.mem_cons_self
    have hvalue : p.value f.1 = .ok (p.valuation f.1.id) := Point.value_eq_ok.mpr ⟨⟨y, hy⟩, rfl⟩
    rw [List.foldlM_cons, hvalue, List.map_cons, List.prod_cons, ← mul_assoc,
      ← factorPower_eq_pow_min]
    exact ih (fun g hg => hfs g (List.mem_cons_of_mem _ hg)) _

theorem Monomial.evaluate_eq_powerProduct {m : Monomial α}
    (hm : ∀ f ∈ m.factors, ∃ y, p f.1.id = some y) :
    m.evaluate p = .ok (m.powerProduct (min · maxPower) p.valuation) :=
  foldlM_factors_eq hm m.coefficient

theorem Scalar.value_eq_powerSum {s : Scalar α}
    (hs : ∀ m ∈ s.toMonomials, ∀ f ∈ m.factors, ∃ y, p f.1.id = some y) :
    s.value p = .ok (s.powerSum (min · maxPower) p.valuation) := by
  cases s with
  | constant c => simp [value, powerSum, toMonomials, Monomial.powerProduct, Monomial.constant,
      Monomial.factors]
  | «variable» v =>
    obtain ⟨y, hy⟩ := hs _ List.mem_cons_self (v, 1) List.mem_cons_self
    have hpower : p.valuation v.id ^ min 1 maxPower = p.valuation v.id := pow_one _
    rw [value, Point.value_eq_ok]
    refine ⟨⟨y, hy⟩, ?_⟩
    simp [powerSum, toMonomials, Monomial.powerProduct, Monomial.term, Monomial.factors, hpower]
  | monomial m =>
    rw [value, Monomial.evaluate_eq_powerProduct (hs m List.mem_cons_self)]
    simp [powerSum, toMonomials]
  | polynomial q =>
    have hmonomial : ∀ m ∈ q.monomials, ∀ y, m.evaluate p = .ok y ↔
        True ∧ y = m.powerProduct (min · maxPower) p.valuation := by
      intro m hm y
      rw [Monomial.evaluate_eq_powerProduct (hs m hm), Except.ok.injEq, true_and, eq_comm]
    have hterms : q.monomials.mapM (·.evaluate p) =
        .ok (q.monomials.map (·.powerProduct (min · maxPower) p.valuation)) :=
      (mapM_eq_ok_iff_map q.monomials hmonomial _).mpr ⟨fun _ _ => trivial, rfl⟩
    rw [value, Polynomial.evaluate, hterms]
    exact congrArg Except.ok (total_eq _)

/-- **A valid scalar has a value wherever its stored factors have values**, the sum of its monomials
with all exponents capped. -/
theorem Scalar.evaluate_eq_powerSum {s : Scalar α} (hs : s.check = .ok ())
    (hp : p.Assigns s.stored) :
    s.evaluate p = .ok (s.powerSum (min · maxPower) p.valuation) := by
  have hin := factorsIn_gives (check_eq_ok.mp hs) hp
  rw [evaluate, hs]
  exact value_eq_powerSum fun m hm => (Monomial.factorsIn_gives.mp (hin.each m hm)).2

/-- The sum as it is written is the value of the exact polynomial. -/
theorem Scalar.evaluate_of_powersWithin {s : Scalar α} (hs : s.PowersWithin)
    (hin : s.FactorsIn p.Gives) : s.evaluate p = .ok (eval p.valuation s.exactMeaning) :=
  (evaluate_eq_ok hs).mpr ⟨hin, rfl⟩

/-- **Evaluation caps the exponents.** At a point that gives every stored factor a value, a valid
scalar has a value: the sum of its monomials with all exponents capped. That is the sum as it is
written where no stored exponent is above the cap. Where the totals also fit in a word, it is the
value of the simplified scalar if no exponent of that is above the cap either. -/
theorem Scalar.evaluate_caps_powers [BEq α] [LawfulBEq α] {s : Scalar α}
    (hs : s.check = .ok ()) (hp : p.Assigns s.stored) :
    s.evaluate p = .ok (s.powerSum (min · maxPower) p.valuation) ∧
      (s.PowersWithin → s.evaluate p = .ok (s.powerSum (fun e => e) p.valuation)) ∧
      ∃ t, s.simplify = .ok t ∧
        (s.TotalsFit → s.PowersWithin → t.PowersWithin → t.evaluate p = s.evaluate p) := by
  have hvalue := evaluate_eq_powerSum hs hp
  have hin := factorsIn_gives (check_eq_ok.mp hs) hp
  refine ⟨hvalue, fun hpowers => ?_, s.simplified, unit_bind_eq_ok.mpr ⟨hs, rfl⟩,
    fun hfit hpowers hsimplified => ?_⟩
  · rw [hvalue, powerSum_capped hpowers]
  · have hexact : s.simplified.exactMeaning = s.exactMeaning :=
      s.totalsFit_simplified.exactMeaning_congr hfit s.meaning_simplified
    rw [evaluate_of_powersWithin hpowers hin, evaluate_of_powersWithin hsimplified hin.simplified,
      hexact]

/-- The value of `2 x y^2 x + 3` where `x` is minus one and `y` is two. -/
theorem Scalar.evaluate_caps_powers_repeated :
    let x : Variable ℤ := .numbered 0
    let y : Variable ℤ := .numbered 1
    let p : Point ℤ := .ofList [(x, -1), (y, 2)]
    let s : Scalar ℤ := .polynomial ⟨[⟨2, [x, y, x], [1, 2, 1]⟩, .constant 3]⟩
    s.check = .ok () ∧ p.Assigns s.stored ∧ s.evaluate p = .ok 11 := by
  intro x y p s
  have hs : s.check = .ok () := by cbv
  have hp : p.Assigns s.stored := by decide
  obtain ⟨-, hwritten, -⟩ := evaluate_caps_powers hs hp
  exact ⟨hs, hp, (hwritten (by decide)).trans (congrArg Except.ok (by decide))⟩

/-! ## Above the cap -/

theorem odd_maxPower : Odd maxPower := ⟨1073741823, rfl⟩

/-- Of the powers of one variable, the exponents that are taken add up. -/
theorem Scalar.powerSum_replicate {v : Variable α} {y : α} (hp : p v.id = some y)
    (cut : Nat → Nat) (c : α) (es : List UInt32) :
    (Scalar.monomial ⟨c, List.replicate es.length v, es⟩).powerSum cut p.valuation =
      c * y ^ (es.map fun e => cut e.toNat).sum := by
  have hvalue : p.valuation v.id = y := by
    rw [Point.valuation, hp]
    rfl
  have hpowers : ((List.replicate es.length v).zip es).map
      (fun f => p.valuation f.1.id ^ cut f.2.toNat) = es.map fun e => y ^ cut e.toNat := by
    induction es with
    | nil => rfl
    | cons e es ih => rw [List.length_cons, List.replicate_succ, List.zip_cons_cons, List.map_cons,
        List.map_cons, ih, hvalue]
  have hprod : ∀ es : List UInt32,
      (es.map fun e => y ^ cut e.toNat).prod = y ^ (es.map fun e => cut e.toNat).sum := by
    intro es
    induction es with
    | nil => rw [List.map_nil, List.map_nil, List.prod_nil, List.sum_nil, pow_zero]
    | cons e es ih => rw [List.map_cons, List.map_cons, List.prod_cons, List.sum_cons, ih, pow_add]
  rw [powerSum, toMonomials, List.map_singleton, List.sum_singleton, Monomial.powerProduct,
    Monomial.factors, hpowers, hprod]

/-- A power of one defined variable, however it is written, has a value where the variable has. -/
theorem Scalar.evaluate_replicate {v : Variable α} (hv : v.id.isDefined = true) {y : α}
    (hp : p v.id = some y) (c : α) (es : List UInt32) :
    (Scalar.monomial ⟨c, List.replicate es.length v, es⟩).evaluate p =
      .ok (c * y ^ (es.map fun e => min e.toNat maxPower).sum) := by
  have hcheck : (Scalar.monomial ⟨c, List.replicate es.length v, es⟩).check = .ok () := by
    refine check_eq_ok.mpr (.singleton ⟨List.length_replicate.symm, fun w hw => ?_⟩)
    rw [List.eq_of_mem_replicate hw]
    exact hv
  have hassigns : p.Assigns (Scalar.monomial ⟨c, List.replicate es.length v, es⟩).stored := by
    intro w hw
    obtain ⟨m, hm, hw'⟩ := List.mem_flatMap.mp hw
    rw [List.mem_singleton.mp hm] at hw'
    rw [List.eq_of_mem_replicate hw']
    exact ⟨y, hp⟩
  rw [evaluate_eq_powerSum hcheck hassigns, powerSum_replicate hp]

/-- **An even exponent above the cap turns the sign at minus one.** -/
theorem Scalar.evaluate_even_above_cap {v : Variable α} (hv : v.id.isDefined = true)
    (hp : p v.id = some (-1)) {e : UInt32} (he : Even e.toNat) (hcap : maxPower < e.toNat)
    (c : α) :
    (Scalar.monomial ⟨c, [v], [e]⟩).evaluate p = .ok (-c) ∧
      (Scalar.monomial ⟨c, [v], [e]⟩).powerSum (fun e => e) p.valuation = c := by
  have hvalue := evaluate_replicate hv hp c [e]
  have hsum := powerSum_replicate hp (fun e => e) c [e]
  rw [List.map_singleton, List.sum_singleton] at hvalue hsum
  rw [Nat.min_eq_right hcap.le, odd_maxPower.neg_one_pow, mul_neg_one] at hvalue
  rw [he.neg_one_pow, mul_one] at hsum
  exact ⟨hvalue, hsum⟩

/-- **Merging can cross the cap.** Of two odd exponents within the cap both are taken, and their
sum, when it is above the cap, is not. -/
theorem Scalar.evaluate_merged_above_cap [BEq α] {v : Variable α} (hv : v.id.isDefined = true)
    (hp : p v.id = some (-1)) {a b : UInt32} (ha : Odd a.toNat) (hb : Odd b.toNat)
    (hac : a.toNat ≤ maxPower) (hbc : b.toNat ≤ maxPower) (hcap : maxPower < a.toNat + b.toNat)
    (c : α) :
    (Scalar.monomial ⟨c, [v, v], [a, b]⟩).evaluate p = .ok c ∧
      ∃ t, (Scalar.monomial ⟨c, [v, v], [a, b]⟩).simplify = .ok t ∧ t.evaluate p = .ok (-c) := by
  have heven : Even (a.toNat + b.toNat) := ha.add_odd hb
  -- the sum of two exponents within the cap is a word
  have hsum : (a + b).toNat = a.toNat + b.toNat := by
    have hcapped : maxPower = 2147483647 := rfl
    rw [UInt32.toNat_add, Nat.mod_eq_of_lt (by omega)]
  have hvalue := evaluate_replicate hv hp c [a, b]
  rw [List.map_cons, List.map_singleton, List.sum_cons, List.sum_singleton, Nat.min_eq_left hac,
    Nat.min_eq_left hbc, heven.neg_one_pow, mul_one] at hvalue
  refine ⟨hvalue, .monomial ⟨c, [v], [a + b]⟩, ?_,
    (evaluate_even_above_cap hv hp (hsum ▸ heven) (hsum ▸ hcap) c).1⟩
  have hcheck : (Scalar.monomial ⟨c, [v, v], [a, b]⟩).check = .ok () :=
    (unit_bind_eq_ok.mp hvalue).1
  have hmerged : (Monomial.mk c [v, v] [a, b]).mergedFactors = [(v, a + b)] := by
    show Monomial.addFactor (v, b) [(v, a)] = _
    rw [Monomial.addFactor, if_pos (Variable.beq_iff.mpr rfl)]
  have hnormalized : (Monomial.mk c [v, v] [a, b]).normalized = ⟨c, [v], [a + b]⟩ := by
    have hpos : 0 < a + b := by
      rw [UInt32.lt_iff_toNat_lt, hsum]
      exact Nat.add_pos_left ha.pos _
    rw [Monomial.normalized, hmerged, List.filter_cons_of_pos (by simpa using hpos)]
    rfl
  exact unit_bind_eq_ok.mpr ⟨hcheck, congrArg (Except.ok ∘ Scalar.monomial) hnormalized⟩

end Ring

/-- At minus one `x^2147483648` is one, and evaluation gives minus one. Written as `x^2147483647 x`
it evaluates to one, so simplifying changes the value. -/
theorem Scalar.evaluate_above_cap :
    let x : Variable ℤ := .numbered 0
    let p : Point ℤ := .ofList [(x, -1)]
    let s : Scalar ℤ := .monomial ⟨1, [x], [2147483648]⟩
    let t : Scalar ℤ := .monomial ⟨1, [x, x], [2147483647, 1]⟩
    (s.check = .ok () ∧ p.Assigns s.stored ∧ s.evaluate p = .ok (-1) ∧
        s.powerSum (fun e => e) p.valuation = 1) ∧
      t.evaluate p = .ok 1 ∧ ∃ u, t.simplify = .ok u ∧ u.evaluate p = .ok (-1) := by
  intro x p s t
  have hdefined : x.id.isDefined = true := rfl
  have hp : p x.id = some (-1) := rfl
  obtain ⟨hevaluate, hsum⟩ := evaluate_even_above_cap hdefined hp (e := 2147483648)
    (by decide) (by decide) 1
  obtain ⟨hwritten, u, hu, hmerged⟩ := evaluate_merged_above_cap hdefined hp odd_maxPower odd_one
    (a := 2147483647) (b := 1) (le_refl maxPower) (by decide) (by decide) 1
  exact ⟨⟨by cbv, by decide, hevaluate, hsum⟩, hwritten, u, hu, hmerged⟩

end DecisionAlgebra
