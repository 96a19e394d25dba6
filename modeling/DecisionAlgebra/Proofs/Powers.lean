import DecisionAlgebra.Proofs.Products

/-!
# Powers

A power is computed by multiplying a constant one by the base, again and again, and no like terms
are combined on the way. Over exact numbers the result means the power of the meaning, so powers of
one base multiply by adding their exponents. Factors are gathered from the one, so no variable is
written twice in a term of a power, and what means the same is then alike.

Evaluation caps stored exponents, and sums of them wrap around. Where the exponent times the largest
total of the base is below the cap, neither happens, and the power evaluates to the power of the
value.
-/

namespace DecisionAlgebra

open Attempt (DecidedBy)

variable {α : Type} {P : VariableId → Prop}

/-! ## Variables written once -/

namespace Monomial

/-- No variable is written twice. -/
def WrittenOnce (m : Monomial α) : Prop := (m.vars.map (·.id)).Nodup

theorem WrittenOnce.totalsFit {m : Monomial α} (hm : m.WrittenOnce) (hin : m.FactorsIn P) :
    m.TotalsFit := by
  rw [WrittenOnce, vars_eq hin.length_eq, List.map_map] at hm
  exact totalsFit_of_nodup hm

/-- Multiplying by a factor raises an exponent or writes a new variable. -/
theorem WrittenOnce.timesFactor {m c : Monomial α} {f : Variable α × UInt32} (hm : m.WrittenOnce)
    (h : m.timesFactor f = some c) : c.WrittenOnce := by
  unfold Monomial.timesFactor at h
  split at h
  next =>
    obtain ⟨e, -, rfl⟩ := Option.map_eq_some_iff.mp h
    exact hm
  next hnone =>
    cases h
    show ((m.vars ++ [f.1]).map (·.id)).Nodup
    rw [List.map_append, List.nodup_append]
    refine ⟨hm, List.nodup_singleton _, fun id hid j hj => ?_⟩
    obtain ⟨v, hv, rfl⟩ := List.mem_map.mp hid
    rw [List.mem_singleton.mp hj]
    have hother : (v == f.1) = false := List.findIdx?_eq_none_iff.mp hnone v hv
    exact Variable.beq_eq_false_iff.mp hother

theorem WrittenOnce.times [Mul α] {a b m : Monomial α} (ha : a.WrittenOnce)
    (h : a.times b = some m) : m.WrittenOnce := by
  -- by induction on the factors, the product so far being general
  have hfold : ∀ (fs : List (Variable α × UInt32)) {c d : Monomial α}, c.WrittenOnce →
      fs.foldlM Monomial.timesFactor c = some d → d.WrittenOnce := by
    intro fs
    induction fs with
    | nil =>
      intro c d hc hd
      cases hd
      exact hc
    | cons f fs ih =>
      intro c d hc hd
      rw [List.foldlM_cons] at hd
      obtain ⟨next, hnext, hd⟩ := Option.bind_eq_some_iff.mp hd
      exact ih (hc.timesFactor hnext) hd
  exact hfold b.factors (c := a.withCoefficient (a.coefficient * b.coefficient)) ha h

end Monomial

namespace Scalar

variable [One α] [Mul α]

/-- Every term of a product is the product of a pair of terms. -/
theorem exists_of_mem_times {l r s : Scalar α} (h : l.times r = some s) {m : Monomial α}
    (hm : m ∈ s.toMonomials) :
    ∃ a ∈ l.toMonomials, ∃ b ∈ r.toMonomials, a.times b = some m := by
  unfold times at h
  split at h
  next c d =>
    cases h
    rw [List.mem_singleton.mp hm]
    exact ⟨_, List.mem_cons_self, _, List.mem_cons_self, rfl⟩
  next =>
    split at h
    next a b ha hb =>
      obtain ⟨k, hk, rfl⟩ := Option.map_eq_some_iff.mp h
      rw [List.mem_singleton.mp hm, toMonomials_of_asMonomial ha, toMonomials_of_asMonomial hb]
      exact ⟨a, List.mem_cons_self, b, List.mem_cons_self, hk⟩
    next =>
      obtain ⟨p, hp, rfl⟩ := Option.map_eq_some_iff.mp h
      obtain ⟨rows, hrows, hp⟩ := Option.bind_eq_some_iff.mp hp
      cases hp
      -- the product stands in the row of the left term
      obtain ⟨row, hrow, hmrow⟩ := List.mem_flatten.mp hm
      obtain ⟨a, ha, hproducts⟩ := exists_of_mem_forall₂ (mapM_eq_some.mp hrows) hrow
      obtain ⟨b, hb, hproduct⟩ := exists_of_mem_forall₂ (mapM_eq_some.mp hproducts) hmrow
      exact ⟨a, ha, b, hb, hproduct⟩

theorem writtenOnce_times {l r s : Scalar α} (h : l.times r = some s)
    (hl : ∀ m ∈ l.toMonomials, m.WrittenOnce) : ∀ m ∈ s.toMonomials, m.WrittenOnce := by
  intro m hm
  obtain ⟨a, ha, b, -, hproduct⟩ := exists_of_mem_times h hm
  exact (hl a ha).times hproduct

/-- A power starts from a constant, so it writes no variable twice in a term. -/
theorem writtenOnce_power {base t : Scalar α} {n : Nat} (h : base.power n = some t) :
    ∀ m ∈ t.toMonomials, m.WrittenOnce := by
  have hloop : ∀ (n : Nat) {result s : Scalar α}, base.timesPower n result = some s →
      (∀ m ∈ result.toMonomials, m.WrittenOnce) → ∀ m ∈ s.toMonomials, m.WrittenOnce := by
    intro n
    induction n with
    | zero =>
      intro result s hs hresult
      cases hs
      exact hresult
    | succ n ih =>
      intro result s hs hresult
      obtain ⟨next, hnext, hs⟩ := Option.bind_eq_some_iff.mp hs
      exact ih hs (writtenOnce_times hnext hresult)
  refine hloop n h fun m hm => ?_
  rw [List.mem_singleton.mp hm]
  exact List.nodup_nil

theorem TotalsWithin.timesPower {base : Scalar α} {k : ℕ} (hbase : base.FactorsIn P)
    (hk : base.TotalsWithin k) (n : Nat) :
    ∀ {r : ℕ} {result s : Scalar α}, result.FactorsIn P → result.TotalsWithin r →
      base.timesPower n result = some s → s.TotalsWithin (r + n * k) := by
  induction n with
  | zero =>
    intro r result s _ hr h
    cases h
    exact hr.mono (Nat.le_add_right _ _)
  | succ n ih =>
    intro r result s hresult hr h
    obtain ⟨next, hnext, hin, -⟩ := exists_times hresult hbase
    rw [Scalar.timesPower, hnext] at h
    have hsum : r + (n + 1) * k = r + k + n * k := by rw [Nat.succ_mul]; omega
    rw [hsum]
    exact ih hin (hr.times hresult hbase hnext hk) h

/-- No total of a power is above the exponent times the largest total of its base. -/
theorem TotalsWithin.power {base t : Scalar α} {k n : ℕ} (hbase : base.FactorsIn P)
    (hk : base.TotalsWithin k) (h : base.power n = some t) : t.TotalsWithin (n * k) := by
  have h0 := TotalsWithin.timesPower hbase hk n (factorsIn_constant 1)
    (totalsWithin_constant (n := 0) 1) h
  rwa [Nat.zero_add] at h0

end Scalar

/-- A power is written as the power of what its base is written as, where its totals fit in a
word. -/
theorem Scalar.exactMeaning_power [CommSemiring α] {s t : Scalar α} {k n : ℕ}
    (hs : s.FactorsIn P) (h : s.power n = some t) (hk : s.TotalsWithin k)
    (hn : n * k ≤ Monomial.largestWord) : t.exactMeaning = s.exactMeaning ^ n := by
  refine TotalsFit.exactMeaning_eq ((hk.power hs h).mono hn) ((hk.exponentsWithin.pow n).mono hn) ?_
  rw [map_pow, inWords_exactMeaning, meaning_power hs h]

/-- **A power evaluates to the power of the value**, where the exponent times the largest total of
the base is below the cap. -/
theorem Scalar.evaluate_power [CommRing α] {s t : Scalar α} {k n : ℕ} (hs : s.FactorsIn P)
    (h : s.power n = some t) (hk : s.TotalsWithin k) (hn : n * k ≤ maxPower) {p : Point α} {x : α}
    (hx : s.evaluate p = .ok x) : t.evaluate p = .ok (x ^ n) := by
  rcases Nat.eq_zero_or_pos n with rfl | hpos
  · cases h
    rw [pow_zero]
    rfl
  have hwithin : s.PowersWithin :=
    (hk.mono ((Nat.le_mul_of_pos_left k hpos).trans hn)).powersWithin
  obtain ⟨hgives, rfl⟩ := (evaluate_eq_ok hwithin).mp hx
  obtain ⟨t', ht', hin⟩ := exists_power hgives n
  obtain rfl : t' = t := Option.some.inj (ht'.symm.trans h)
  have hword : n * k ≤ Monomial.largestWord := hn.trans maxPower_le_largestWord
  rw [evaluate_eq_ok ((hk.power hs h).mono hn).powersWithin, exactMeaning_power hs h hk hword,
    map_pow]
  exact ⟨hin, rfl⟩

/-! ## Scalar expressions -/

namespace Expression

theorem evaluate_scalar_eq_ok [Zero α] [One α] [Add α] [Neg α] [Mul α] {s : Scalar α} {p : Point α}
    {v : Expression α} :
    (scalar s).evaluate p = .ok v ↔ ∃ x, s.evaluate p = .ok x ∧ constant x = v := by
  rw [evaluate, unit_bind_eq_ok, bind_eq_ok]
  constructor
  · intro h
    obtain ⟨-, xs, hxs, hv⟩ := h
    cases mapM_eq_ok.mp hxs with
    | cons hx hrest =>
      cases hrest
      exact ⟨_, hx, Except.ok.inj hv⟩
  · intro h
    obtain ⟨x, hx, rfl⟩ := h
    exact ⟨(unit_bind_eq_ok.mp hx).1, [x], mapM_eq_ok.mpr (.cons hx .nil), rfl⟩

section Ring

variable [CommRing α]

/-- Scalars that mean the same are alike, where their totals fit in a word. -/
theorem alike_scalar {s t : Scalar α} (h : s.meaning = t.meaning) (hs : s.TotalsFit)
    (ht : t.TotalsFit) : (scalar s).Alike (scalar t) := by
  refine ⟨rfl, fun i hi j hj => ?_⟩
  obtain rfl := Nat.lt_one_iff.mp hi
  obtain rfl := Nat.lt_one_iff.mp hj
  refine ⟨s, t, rfl, rfl, fun e => ?_⟩
  rw [Scalar.coefficientAt_eq, Scalar.coefficientAt_eq,
    hs.exactMeaning_congr ht h]

theorem multiply_scalar [BEq α] {a b c : Scalar α} (ha : (scalar a).check = .ok ())
    (hb : (scalar b).check = .ok ()) (h : a.times b = some c) :
    ((scalar a).multiply (scalar b)).outcome = .ok (.scalar c) := by
  have hgrid : (Grid.ofExpression (scalar a)).mapM? (·.times b) =
      some (.ofExpression (scalar c)) :=
    Grid.mapM?_eq_some.mpr ⟨rfl, rfl, .cons h .nil⟩
  exact outcome_multiply_scalar ha hb hgrid

end Ring

/-! ## The objections to a power -/

/-- The objection to an exponent: that it is negative, or too large. -/
def exponentObjection? (n : Int) : Option Error :=
  if n < 0 then some (.negativeExponent n)
  else if n ≤ maxExponent then none
  else some (.unsupportedInput .power ("exponent " ++ toString n))

/-- The first objection to a power: to the base, then that it is no scalar, then to the exponent. -/
def powerObjection? (e : Expression α) (n : Int) : Option Error :=
  invalidity? .power .left e <|>
    (if e.isScalar then none else some (.unsupportedInput .power e.typeName)) <|>
      exponentObjection? n

theorem decidedBy_powerExponent (n : Int) :
    DecidedBy (Attempt.checked (powerExponent n)) (exponentObjection? n) := by
  unfold powerExponent exponentObjection?
  split
  next => rfl
  next =>
    split
    next => exact Attempt.decidedBy_ok _
    next => rfl

theorem decidedBy_power [One α] [Mul α] (e : Expression α) (n : Int) :
    DecidedBy (e.power n).outcome (powerObjection? e n) := by
  rw [power, Traced.outcome_bind]
  refine (decidedBy_checkOperand .power .left e).bind fun u hu => ?_
  have hin := (ensures_checkOperand .power .left e).value u hu
  cases e with
  | scalar s =>
    refine (decidedBy_powerExponent n).bind_ok fun k _ => ?_
    obtain ⟨t, ht, -⟩ := Scalar.exists_power (factorsIn_scalar.mp hin) k
    exact ⟨scalar t, by rw [ht]; rfl⟩
  | vector | matrix => rfl

/-- A valid scalar has a power for every exponent in range. -/
theorem exists_power [One α] [Mul α] {s : Scalar α} (hs : (scalar s).check = .ok ()) {n : Nat}
    (hn : n ≤ maxExponent) : ∃ t, s.power n = some t ∧
      ((scalar s).power n).outcome = .ok (.scalar t) ∧ (scalar t).check = .ok () := by
  obtain ⟨t, ht, hin⟩ := Scalar.exists_power (factorsIn_scalar.mp (check_eq_ok.mp hs)) n
  exact ⟨t, ht, power_eq_ok.mpr ⟨hs, s, n, t, rfl, ⟨rfl, hn⟩, ht, rfl⟩,
    check_eq_ok.mpr (factorsIn_scalar.mpr hin)⟩

/-! ## The laws of powers -/

section Ring

variable [CommRing α]

/-- **A power is exponentiation.** A valid scalar has a power for every exponent up to the largest
one. Where the scalar has a value, and the largest total of the power, which is the exponent times
that of the base, is not above the cap, the value of the power is that power of it, and one for the
exponent zero. The power to a sum and the product of the powers have the same coefficients.
Everything else is refused for the first objection there is. -/
theorem power_laws [BEq α] (e : Expression α) :
    (e.check = .ok () → e.isScalar = true →
      (∀ n : Nat, n ≤ maxExponent → ∃ q, (e.power n).outcome = .ok q ∧
        ∀ p v, e.evaluate p = .ok v → ∃ x, v = constant x ∧
          ∀ k, e.TotalsWithin k → n * k ≤ maxPower → q.evaluate p = .ok (constant (x ^ n))) ∧
      ∀ m n : Nat, m + n ≤ maxExponent → ∃ a b ab q, (e.power m).outcome = .ok a ∧
        (e.power n).outcome = .ok b ∧ (a.multiply b).outcome = .ok ab ∧
        (e.power (m + n : Nat)).outcome = .ok q ∧ q.Alike ab) ∧
    ∀ n : Int, DecidedBy (e.power n).outcome (powerObjection? e n) := by
  refine ⟨fun he hscalar => ?_, decidedBy_power e⟩
  cases e with
  | scalar s =>
    have hin := factorsIn_scalar.mp (check_eq_ok.mp he)
    refine ⟨fun n hn => ?_, fun m n hmn => ?_⟩
    · obtain ⟨t, ht, hpower, -⟩ := exists_power he hn
      refine ⟨scalar t, hpower, fun p v hv => ?_⟩
      obtain ⟨x, hx, rfl⟩ := evaluate_scalar_eq_ok.mp hv
      refine ⟨x, rfl, fun k hk hnk => evaluate_scalar_eq_ok.mpr ⟨x ^ n, ?_, rfl⟩⟩
      exact Scalar.evaluate_power hin ht (hk s List.mem_cons_self) hnk hx
    · have hm : m ≤ maxExponent := (Nat.le_add_right m n).trans hmn
      have hn : n ≤ maxExponent := (Nat.le_add_left n m).trans hmn
      obtain ⟨a, ha, hpowera, hachecks⟩ := exists_power he hm
      obtain ⟨b, hb, hpowerb, hbchecks⟩ := exists_power he hn
      obtain ⟨q, hq, hpowerq, hqchecks⟩ := exists_power he hmn
      have hain := factorsIn_scalar.mp (check_eq_ok.mp hachecks)
      have hbin := factorsIn_scalar.mp (check_eq_ok.mp hbchecks)
      have hqin := factorsIn_scalar.mp (check_eq_ok.mp hqchecks)
      obtain ⟨ab, hab, habin, -⟩ := Scalar.exists_times hain hbin
      have hqfit : q.TotalsFit := fun m hm =>
        (Scalar.writtenOnce_power hq m hm).totalsFit (hqin.each m hm)
      have habfit : ab.TotalsFit := fun m hm =>
        (Scalar.writtenOnce_times hab (Scalar.writtenOnce_power ha) m hm).totalsFit
          (habin.each m hm)
      refine ⟨scalar a, scalar b, scalar ab, scalar q, hpowera, hpowerb,
        multiply_scalar hachecks hbchecks hab, hpowerq, alike_scalar ?_ hqfit habfit⟩
      rw [Scalar.meaning_times hain hbin hab, Scalar.meaning_power hin ha,
        Scalar.meaning_power hin hb, Scalar.meaning_power hin hq, pow_add]
  | vector | matrix => cases hscalar

end Ring

/-- A base with a repeated factor, a factor of exponent zero and two like terms: squared, it has
four terms and the square of its value. Its power to a negative exponent is refused. -/
theorem power_laws_square :
    let x : Variable ℤ := .numbered 0
    let y : Variable ℤ := .numbered 1
    let e : Expression ℤ := .scalar (.polynomial ⟨[⟨2, [x, y, x], [1, 0, 1]⟩, ⟨3, [x], [2]⟩]⟩)
    let q : Expression ℤ := .scalar (.polynomial ⟨[⟨4, [x, y], [4, 0]⟩, ⟨6, [x, y], [4, 0]⟩,
      ⟨6, [x, y], [4, 0]⟩, ⟨9, [x], [4]⟩]⟩)
    let p : Point ℤ := .ofList [(x, 2), (y, 7)]
    (e.check = .ok () ∧ e.isScalar = true ∧ 2 ≤ maxExponent ∧ e.TotalsWithin 2) ∧
      (e.power 2).outcome = .ok q ∧ e.evaluate p = .ok (constant 20) ∧
      q.evaluate p = .ok (constant 400) ∧
      (∃ a b ab c, (e.power 2).outcome = .ok a ∧ (e.power 1).outcome = .ok b ∧
        (a.multiply b).outcome = .ok ab ∧ (e.power 3).outcome = .ok c ∧ c.Alike ab) ∧
      (e.power (-1)).outcome = Attempt.refuse (.negativeExponent (-1)) := by
  intro x y e q p
  have he : e.check = .ok () := by cbv
  have hmax : 2 ≤ maxExponent := by decide
  have hq : (e.power 2).outcome = .ok q := rfl
  have hwithin : e.TotalsWithin 2 := by decide
  have hvalue : e.evaluate p = .ok (constant 20) := by cbv
  obtain ⟨hpowers, hrefused⟩ := power_laws e
  obtain ⟨hvalues, hproducts⟩ := hpowers he rfl
  obtain ⟨q', hq', heval⟩ := hvalues 2 hmax
  obtain rfl : q = q' := Except.ok.inj (hq.symm.trans hq')
  obtain ⟨z, hz, hsquare⟩ := heval p _ hvalue
  cases hz
  have hnegative : (e.power (-1)).outcome = Attempt.refuse (.negativeExponent (-1)) := by
    have hdecided := hrefused (-1)
    rwa [show e.powerObjection? (-1) = some (.negativeExponent (-1)) from rfl] at hdecided
  exact ⟨⟨he, rfl, hmax, hwithin⟩, hq, hvalue, hsquare 2 hwithin (by decide),
    hproducts 2 1 (by decide), hnegative⟩

end Expression

end DecisionAlgebra
