import DecisionAlgebra.Calculus.Evaluation
import DecisionAlgebra.Proofs.Grids
import DecisionAlgebra.Proofs.ExactMeaning
import Mathlib.Data.List.Permutation

/-!
# Evaluation reads off the exact polynomial

Evaluation takes powers by repeated squaring, caps their exponents, multiplies and adds in a fixed
order and stops at the first factor without a value. Over exact numbers, and where no stored
exponent reaches the cap, the outcome depends on little: it is a value exactly when the scalar is
well-formed and the point gives every stored factor a value, and then the value is that of the
polynomial as it is written, with exact exponents.
-/

namespace DecisionAlgebra

open MvPolynomial (eval)

variable {α : Type}

/-! ## Powers and sums -/

/-- The invariant of repeated squaring: what is gathered times the power that is left. -/
theorem powFrom_eq [CommMonoid α] (n : Nat) : ∀ r a : α, powFrom r a n = r * a ^ n := by
  induction n using Nat.strong_induction_on with
  | _ n ih =>
    intro r a
    -- a factor is taken out where the exponent is odd, then the base is squared
    have hsplit : a ^ n = a ^ (n % 2) * (a * a) ^ (n / 2) := by
      rw [← pow_two, ← pow_mul, ← pow_add, Nat.mod_add_div]
    have htaken : (if n % 2 = 1 then r * a else r) = r * a ^ (n % 2) := by
      rcases Nat.mod_two_eq_zero_or_one n with h | h <;> simp [h]
    rw [powFrom, htaken, hsplit]
    by_cases hzero : n / 2 = 0
    · rw [dif_pos hzero, hzero, pow_zero, mul_one]
    · rw [dif_neg hzero, ih (n / 2) (by omega), mul_assoc]

/-- A power is taken with its exponent capped. -/
theorem factorPower_eq_pow_min [CommMonoid α] (x : α) (e : Nat) :
    factorPower x e = x ^ min e maxPower := by
  rw [factorPower, powSquaring, powFrom_eq, one_mul]

theorem factorPower_eq [CommMonoid α] (x : α) {e : Nat} (he : e ≤ maxPower) :
    factorPower x e = x ^ e := by
  rw [factorPower_eq_pow_min, Nat.min_eq_left he]

theorem total_eq [CommRing α] (xs : List α) : total xs = xs.sum := by
  rw [total, neg_zero, List.sum_eq_foldl]

/-- No stored exponent is above the largest power that evaluation takes. Where the total exponents
of the variables are not, neither are the stored ones. -/
def Monomial.PowersWithin (m : Monomial α) : Prop := ∀ f ∈ m.factors, f.2.toNat ≤ maxPower

@[inherit_doc Monomial.PowersWithin]
def Scalar.PowersWithin [One α] (s : Scalar α) : Prop := ∀ m ∈ s.toMonomials, m.PowersWithin

@[inherit_doc Monomial.PowersWithin]
def Expression.PowersWithin [One α] (e : Expression α) : Prop := ∀ s ∈ e.elements, s.PowersWithin

instance (m : Monomial α) : Decidable m.PowersWithin :=
  inferInstanceAs (Decidable (∀ f ∈ m.factors, f.2.toNat ≤ maxPower))

instance [One α] (s : Scalar α) : Decidable s.PowersWithin :=
  inferInstanceAs (Decidable (∀ m ∈ s.toMonomials, m.PowersWithin))

instance [One α] (e : Expression α) : Decidable e.PowersWithin :=
  inferInstanceAs (Decidable (∀ s ∈ e.elements, s.PowersWithin))

/-- Totals up to the cap fit in a word. -/
theorem maxPower_le_largestWord : maxPower ≤ Monomial.largestWord := by decide

theorem Monomial.TotalsWithin.powersWithin {m : Monomial α} (hm : m.TotalsWithin maxPower) :
    m.PowersWithin :=
  fun f hf => (le_exactSum_of_mem hf).trans (totalsWithin_iff.mp hm f.1.id)

theorem Scalar.TotalsWithin.powersWithin [One α] {s : Scalar α} (hs : s.TotalsWithin maxPower) :
    s.PowersWithin :=
  fun m hm => (hs m hm).powersWithin

theorem Expression.TotalsWithin.powersWithin [One α] {e : Expression α}
    (he : e.TotalsWithin maxPower) : e.PowersWithin :=
  fun s hs => (he s hs).powersWithin

/-! ## Points -/

/-- The variable with a number, for small cases. -/
def Variable.numbered [Zero α] (n : Nat) : Variable α := ⟨⟨n⟩, .continuous, 0, 0⟩

instance Rational.instNumeral : Numeral Rat := ⟨toString⟩

namespace Point

/-- An environment may have made the variable, and the point gives it a value. -/
def Gives (p : Point α) (id : VariableId) : Prop := id.isDefined = true ∧ ∃ x, p id = some x

/-- The values of a point, zero where there is none. -/
def valuation [Zero α] (p : Point α) (id : VariableId) : α := (p id).getD 0

theorem value_eq_ok [Zero α] {p : Point α} {v : Variable α} {x : α} :
    p.value v = .ok x ↔ (∃ y, p v.id = some y) ∧ x = p.valuation v.id := by
  unfold value valuation
  cases hv : p v.id with
  | none => simp
  | some y => simp [eq_comm]

theorem valuation_set [Zero α] (p : Point α) (id : VariableId) (x : α) :
    (p.set id x).valuation = Function.update p.valuation id x := by
  funext j
  unfold valuation set
  by_cases h : j = id
  · rw [if_pos h, h, Function.update_self]
    rfl
  · rw [if_neg h, Function.update_of_ne h]

/-- Setting a defined variable gives it a value and leaves the others alone. -/
theorem gives_set {p : Point α} {id j : VariableId} (hid : id.isDefined = true) {x : α} :
    (p.set id x).Gives j ↔ j = id ∨ p.Gives j := by
  unfold Gives set
  by_cases h : j = id
  · simp [h, hid]
  · simp [h]

end Point

section Ring

variable [CommRing α] {p : Point α} {x : α}

/-! ## Monomials -/

namespace Monomial

theorem foldlM_factors_eq_ok {fs : List (Variable α × UInt32)}
    (hfs : ∀ f ∈ fs, f.2.toNat ≤ maxPower) :
    ∀ {c : α}, fs.foldlM (fun acc f => do
        return acc * factorPower (← p.value f.1) f.2.toNat) c = .ok x ↔
      (∀ f ∈ fs, ∃ y, p f.1.id = some y) ∧
        x = c * (exactSum Variable.id fs).prod fun id e => p.valuation id ^ e := by
  induction fs with
  | nil =>
    intro c
    rw [List.foldlM_nil, pure_eq_ok, exactSum_nil, Finsupp.prod_zero_index, mul_one]
    exact ⟨fun h => ⟨nofun, h.symm⟩, fun h => h.2.symm⟩
  | cons f fs ih =>
    intro c
    -- the head's power moves from the product into what is gathered
    have hprod : c * (exactSum Variable.id (f :: fs)).prod (fun id e => p.valuation id ^ e) =
        c * p.valuation f.1.id ^ f.2.toNat *
          (exactSum Variable.id fs).prod fun id e => p.valuation id ^ e := by
      have hadd := Finsupp.prod_add_index' (f := Finsupp.single f.1.id f.2.toNat)
        (g := exactSum Variable.id fs) (h := fun id e => p.valuation id ^ e)
        (fun _ => pow_zero _) fun _ _ _ => pow_add _ _ _
      have hsingle : (Finsupp.single f.1.id f.2.toNat).prod (fun id e => p.valuation id ^ e) =
          p.valuation f.1.id ^ f.2.toNat := Finsupp.prod_single_index (pow_zero _)
      rw [exactSum_cons, hadd, hsingle, mul_assoc]
    have ih' := fun d => ih (fun g hg => hfs g (List.mem_cons_of_mem _ hg)) (c := d)
    rw [List.foldlM_cons, hprod, List.forall_mem_cons]
    simp only [bind_eq_ok, pure_eq_ok, Point.value_eq_ok,
      factorPower_eq _ (hfs f List.mem_cons_self), ih']
    constructor
    · intro h
      obtain ⟨_, ⟨_, ⟨hf, rfl⟩, rfl⟩, hrest, rfl⟩ := h
      exact ⟨⟨hf, hrest⟩, rfl⟩
    · intro h
      obtain ⟨⟨hf, hrest⟩, rfl⟩ := h
      exact ⟨_, ⟨_, ⟨hf, rfl⟩, rfl⟩, hrest, rfl⟩

theorem evaluate_eq_ok {m : Monomial α} (hm : m.PowersWithin) :
    m.evaluate p = .ok x ↔
      (∀ f ∈ m.factors, ∃ y, p f.1.id = some y) ∧ x = eval p.valuation m.exactMeaning := by
  rw [evaluate, foldlM_factors_eq_ok hm, exactMeaning, MvPolynomial.eval_monomial]
  rfl

/-- A monomial is well-formed over the variables with values when it is valid and its factors have
values. -/
theorem factorsIn_gives {α : Type} {p : Point α} {m : Monomial α} :
    m.FactorsIn p.Gives ↔
      m.FactorsIn (fun id => id.isDefined = true) ∧ ∀ f ∈ m.factors, ∃ y, p f.1.id = some y := by
  constructor
  · intro h
    exact ⟨h.mono fun _ hid => hid.1, fun f hf => (h.of_mem hf).2⟩
  · intro hboth
    obtain ⟨h, hvalues⟩ := hboth
    refine ⟨h.length_eq, fun v hv => ⟨h.ids v hv, ?_⟩⟩
    rw [vars_eq h.length_eq] at hv
    obtain ⟨f, hf, rfl⟩ := List.mem_map.mp hv
    exact hvalues f hf

end Monomial

/-! ## Scalars -/

theorem Polynomial.evaluate_eq_ok {q : Polynomial α} (hq : ∀ m ∈ q.monomials, m.PowersWithin) :
    q.evaluate p = .ok x ↔
      (∀ m ∈ q.monomials, ∀ f ∈ m.factors, ∃ y, p f.1.id = some y) ∧
        x = eval p.valuation (termsExact q.monomials) := by
  have hwalk := mapM_eq_ok_iff_map q.monomials
    fun m hm y => Monomial.evaluate_eq_ok (p := p) (x := y) (hq m hm)
  have hsum : eval p.valuation (termsExact q.monomials) =
      (q.monomials.map fun m => eval p.valuation m.exactMeaning).sum := by
    rw [termsExact, map_list_sum, List.map_map]
    rfl
  unfold evaluate
  simp only [bind_eq_ok, pure_eq_ok, hwalk, total_eq, hsum]
  constructor
  · intro h
    obtain ⟨_, ⟨hvalues, rfl⟩, rfl⟩ := h
    exact ⟨hvalues, rfl⟩
  · intro h
    obtain ⟨hvalues, rfl⟩ := h
    exact ⟨_, ⟨hvalues, rfl⟩, rfl⟩

namespace Scalar

@[simp] theorem exactMeaning_promote (s : Scalar α) (k : Kind) :
    (s.promote k).exactMeaning = s.exactMeaning := by
  rw [exactMeaning, toMonomials_promote, exactMeaning]

theorem value_eq_ok {s : Scalar α} (hs : s.PowersWithin) :
    s.value p = .ok x ↔
      (∀ m ∈ s.toMonomials, ∀ f ∈ m.factors, ∃ y, p f.1.id = some y) ∧
        x = eval p.valuation s.exactMeaning := by
  cases s with
  | constant c =>
    rw [value, exactMeaning_constant, MvPolynomial.eval_C, toMonomials]
    simp [Monomial.constant, Monomial.factors, eq_comm]
  | «variable» v =>
    rw [value, exactMeaning_variable, MvPolynomial.eval_X, toMonomials, Point.value_eq_ok]
    simp [Monomial.term, Monomial.factors]
  | monomial m =>
    rw [value, exactMeaning_monomial, toMonomials,
      Monomial.evaluate_eq_ok (hs m List.mem_cons_self)]
    simp
  | polynomial q => exact Polynomial.evaluate_eq_ok hs

/-- **A scalar has a value exactly when it is well-formed with variables that the point gives**, and
the value is that of its exact polynomial. -/
theorem evaluate_eq_ok {s : Scalar α} (hs : s.PowersWithin) :
    s.evaluate p = .ok x ↔ s.FactorsIn p.Gives ∧ x = eval p.valuation s.exactMeaning := by
  have hgives : s.FactorsIn p.Gives ↔ s.FactorsIn (fun id => id.isDefined = true) ∧
      ∀ m ∈ s.toMonomials, ∀ f ∈ m.factors, ∃ y, p f.1.id = some y := by
    constructor
    · intro h
      exact ⟨h.mono fun _ hid => hid.1, fun m hm => (Monomial.factorsIn_gives.mp (h.each m hm)).2⟩
    · intro hboth
      obtain ⟨h, hvalues⟩ := hboth
      exact ⟨h.ne_nil, fun m hm => Monomial.factorsIn_gives.mpr ⟨h.each m hm, hvalues m hm⟩⟩
  rw [evaluate, unit_bind_eq_ok, hgives, and_assoc, ← value_eq_ok hs, ← check_eq_ok]

end Scalar

/-! ## Expressions -/

namespace Expression

/-- The polynomial that the entry in row `i` and column `j` stands for. -/
noncomputable def meaningAt (e : Expression α) (i j : Nat) : WordPolynomial α :=
  (e.elements[i * e.dims.cols + j]?).elim 0 Scalar.meaning

/-- The polynomial that the entry in row `i` and column `j` is written as. -/
noncomputable def exactAt (e : Expression α) (i j : Nat) : MvPolynomial VariableId α :=
  (e.elements[i * e.dims.cols + j]?).elim 0 Scalar.exactMeaning

/-- The exact entry with its exponents as words is the meaning of the entry. -/
theorem inWords_exactAt (e : Expression α) (i j : Nat) :
    inWords (e.exactAt i j) = e.meaningAt i j := by
  rw [exactAt, meaningAt]
  cases e.elements[i * e.dims.cols + j]? with
  | none => exact map_zero inWords
  | some s => exact s.inWords_exactMeaning

/-- Where totals stay within a bound, so do the exponents of the entries. -/
theorem TotalsWithin.exponentsWithin {n : ℕ} {e : Expression α} (he : e.TotalsWithin n)
    (i j : Nat) : ExponentsWithin n (e.exactAt i j) := by
  rw [exactAt]
  cases h : e.elements[i * e.dims.cols + j]? with
  | none => exact .zero
  | some s => exact (he s (List.mem_of_getElem? h)).exponentsWithin

/-- Where totals together fit in a word, so do the exponents of a product of entries. -/
theorem TotalsFitWith.exponentsWithin {d e : Expression α} (h : d.TotalsFitWith e)
    (i k p j : Nat) : ExponentsWithin Monomial.largestWord (d.exactAt i k * e.exactAt p j) := by
  rw [exactAt, exactAt]
  cases hs : d.elements[i * d.dims.cols + k]? with
  | none =>
    rw [Option.elim_none, zero_mul]
    exact .zero
  | some s =>
    cases ht : e.elements[p * e.dims.cols + j]? with
    | none =>
      rw [Option.elim_none, mul_zero]
      exact .zero
    | some t => exact (h s (List.mem_of_getElem? hs) t (List.mem_of_getElem? ht)).exponentsWithin

/-- At the point the expression has a value, of its own form and shape, with the number `A i j` in
row `i` and column `j`. -/
def HasValues (e : Expression α) (p : Point α) (A : Nat → Nat → α) : Prop :=
  ∃ v, e.evaluate p = .ok v ∧ v.form = e.form ∧ v.dims = e.dims ∧
    ∀ i < e.dims.rows, ∀ j < e.dims.cols, v.at? i j = .ok (.constant (A i j))

/-- The values of the elements, before they are typed. -/
noncomputable def valueGrid (e : Expression α) (p : Point α) : Grid α :=
  ⟨e.form, e.dims, e.elements.map fun s => .constant (eval p.valuation s.exactMeaning)⟩

/-- **An expression has a value exactly when it is well-formed with variables that the point
gives.** -/
theorem evaluate_eq_ok {e v : Expression α} (he : e.PowersWithin) :
    e.evaluate p = .ok v ↔ e.FactorsIn p.Gives ∧ (e.valueGrid p).toExpression = .ok v := by
  have hwalk := mapM_eq_ok_iff_map e.elements
    fun s hs x => Scalar.evaluate_eq_ok (p := p) (x := x) (he s hs)
  rw [evaluate, unit_bind_eq_ok, check_eq_ok, bind_eq_ok, valueGrid]
  simp only [hwalk]
  constructor
  · intro h
    obtain ⟨hcheck, _, ⟨hin, rfl⟩, hv⟩ := h
    rw [List.map_map] at hv
    exact ⟨⟨hcheck.length_eq, hcheck.ne_nil, hin⟩, hv⟩
  · intro h
    obtain ⟨hin, hv⟩ := h
    refine ⟨hin.mono fun _ h => h.1, _, ⟨hin.each, rfl⟩, ?_⟩
    rw [List.map_map]
    exact hv

theorem fits_valueGrid {e : Expression α} (he : e.elements.length = e.dims.size) :
    (e.valueGrid p).Fits :=
  Grid.fits_of_length he (List.length_map _)

/-- Values are numbers, so typing them changes nothing. -/
theorem kind_valueGrid (e : Expression α) : (e.valueGrid p).kind = .constant := by
  rw [Grid.kind, valueGrid, List.map_map]
  cases e.elements with
  | nil => rfl
  | cons s ss =>
    refine Kind.joinAll_eq List.mem_cons_self fun k hk => ?_
    obtain ⟨t, -, rfl⟩ := List.mem_map.mp hk
    exact Kind.within_refl .constant

/-- The values of the elements, in order. -/
theorem elements_of_evaluate {e v : Expression α} (he : e.PowersWithin)
    (h : e.evaluate p = .ok v) :
    v.elements = e.elements.map fun s => .constant (eval p.valuation s.exactMeaning) := by
  obtain ⟨hin, hv⟩ := (evaluate_eq_ok he).mp h
  have htyped := Grid.isTyped_of_toExpression (fits_valueGrid hin.length_eq) hv
  rw [htyped.elements_eq, kind_valueGrid, valueGrid, List.map_map]
  exact List.map_congr_left fun s _ => rfl

theorem hasValues {e : Expression α} (he : e.PowersWithin) (hin : e.FactorsIn p.Gives) :
    e.HasValues p fun i j => eval p.valuation (e.exactAt i j) := by
  obtain ⟨v, hv, htyped⟩ := Grid.exists_toExpression (fits_valueGrid (p := p) hin.length_eq)
  have hvalue : e.evaluate p = .ok v := (evaluate_eq_ok he).mpr ⟨hin, hv⟩
  have hform : v.form = e.form := htyped.form_eq
  have hdims : v.dims = e.dims := htyped.dims_eq
  refine ⟨v, hvalue, hform, hdims, fun i hi j hj => ?_⟩
  have hplace : i * e.dims.cols + j < e.elements.length := hin.length_eq ▸ Shape.place_lt hi hj
  have hexact : e.exactAt i j = (e.elements[i * e.dims.cols + j]).exactMeaning := by
    rw [exactAt, List.getElem?_eq_getElem hplace]
    rfl
  rw [at?, hdims, if_pos ⟨hi, hj⟩, Attempt.read_eq_ok, elements_of_evaluate he hvalue,
    List.getElem?_map, List.getElem?_eq_getElem hplace, Option.map_some]
  show some (Scalar.constant _) = some (Scalar.constant (eval p.valuation (e.exactAt i j)))
  rw [hexact]

end Expression

end Ring

end DecisionAlgebra
