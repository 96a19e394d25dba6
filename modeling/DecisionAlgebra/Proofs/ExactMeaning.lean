import DecisionAlgebra.Proofs.Meaning
import Mathlib.Algebra.MonoidAlgebra.MapDomain
import Mathlib.Algebra.MvPolynomial.CommRing

/-!
# What a scalar means with exact exponents

The meaning of a scalar has words as exponents. The polynomial that is written down has numbers, and
as an element of Mathlib's multivariate polynomials it can be evaluated, differentiated and compared
with what a reader expects. Taking its exponents as words gives the meaning. That loses nothing
where the exponents fit in a word, so an equation between meanings is then one between exact
polynomials.
-/

namespace DecisionAlgebra

open MvPolynomial (coeff)

variable {α : Type} {P : VariableId → Prop}

/-! ## Totals of the terms -/

/-- No variable has an exact total exponent above `n` in a term. -/
def Scalar.TotalsWithin [One α] (n : ℕ) (s : Scalar α) : Prop :=
  ∀ m ∈ s.toMonomials, m.TotalsWithin n

/-- The exact total exponents of every term fit in a word. -/
def Scalar.TotalsFit [One α] (s : Scalar α) : Prop := s.TotalsWithin Monomial.largestWord

/-- No variable has an exact total exponent above `n` in a term of an element. -/
def Expression.TotalsWithin [One α] (n : ℕ) (e : Expression α) : Prop :=
  ∀ s ∈ e.elements, s.TotalsWithin n

/-- The exact total exponents of every term of every element fit in a word. -/
def Expression.TotalsFit [One α] (e : Expression α) : Prop := e.TotalsWithin Monomial.largestWord

instance [One α] (n : ℕ) (s : Scalar α) : Decidable (s.TotalsWithin n) :=
  inferInstanceAs (Decidable (∀ m ∈ s.toMonomials, m.TotalsWithin n))

instance [One α] (s : Scalar α) : Decidable s.TotalsFit :=
  inferInstanceAs (Decidable (s.TotalsWithin Monomial.largestWord))

instance [One α] (n : ℕ) (e : Expression α) : Decidable (e.TotalsWithin n) :=
  inferInstanceAs (Decidable (∀ s ∈ e.elements, s.TotalsWithin n))

instance [One α] (e : Expression α) : Decidable e.TotalsFit :=
  inferInstanceAs (Decidable (e.TotalsWithin Monomial.largestWord))

/-- The exact totals of a term of the one and a term of the other scalar together fit in a word. -/
def Scalar.TotalsFitWith [One α] (s t : Scalar α) : Prop :=
  ∀ m ∈ s.toMonomials, ∀ k ∈ t.toMonomials, m.TotalsFitWith k

/-- The exact totals of a term of the one and a term of the other expression together fit in a
word. -/
def Expression.TotalsFitWith [One α] (d e : Expression α) : Prop :=
  ∀ s ∈ d.elements, ∀ t ∈ e.elements, s.TotalsFitWith t

instance [One α] (s t : Scalar α) : Decidable (s.TotalsFitWith t) :=
  inferInstanceAs (Decidable (∀ m ∈ s.toMonomials, ∀ k ∈ t.toMonomials, m.TotalsFitWith k))

instance [One α] (d e : Expression α) : Decidable (d.TotalsFitWith e) :=
  inferInstanceAs (Decidable (∀ s ∈ d.elements, ∀ t ∈ e.elements, s.TotalsFitWith t))

/-- The degree of every term fits in a word. -/
def Scalar.DegreesFit [One α] (s : Scalar α) : Prop := ∀ m ∈ s.toMonomials, m.DegreeFits

/-- The degree of every term of every element fits in a word. -/
def Expression.DegreesFit [One α] (e : Expression α) : Prop := ∀ s ∈ e.elements, s.DegreesFit

instance [One α] (s : Scalar α) : Decidable s.DegreesFit :=
  inferInstanceAs (Decidable (∀ m ∈ s.toMonomials, m.DegreeFits))

instance [One α] (e : Expression α) : Decidable e.DegreesFit :=
  inferInstanceAs (Decidable (∀ s ∈ e.elements, s.DegreesFit))

theorem Scalar.DegreesFit.totalsFit [One α] {s : Scalar α} (h : s.DegreesFit)
    (hs : s.FactorsIn P) : s.TotalsFit :=
  fun m hm => (h m hm).totalsFit (hs.each m hm).length_eq

theorem Expression.TotalsFit.of_mem [One α] {e : Expression α} (he : e.TotalsFit) {s : Scalar α}
    (hs : s ∈ e.elements) : s.TotalsFit :=
  he s hs

theorem AreProducts.totalsWithin [Mul α] {ls rs ms : List (Monomial α)} (h : AreProducts ls rs ms)
    {k n : ℕ} (hls : ∀ l ∈ ls, l.TotalsWithin k) (hrs : ∀ r ∈ rs, r.TotalsWithin n) :
    ∀ m ∈ ms, m.TotalsWithin (k + n) := by
  intro m hm
  obtain ⟨lr, hlr, hprod⟩ := exists_of_mem_forall₂ h hm
  obtain ⟨hl, hr⟩ := List.mem_product.mp hlr
  exact hprod.totalsWithin (hls _ hl) (hrs _ hr)

theorem AreProducts.totalsFit [Mul α] {ls rs ms : List (Monomial α)} (h : AreProducts ls rs ms)
    (hfit : ∀ l ∈ ls, ∀ r ∈ rs, l.TotalsFitWith r) : ∀ m ∈ ms, m.TotalsFit := by
  intro m hm
  obtain ⟨lr, hlr, hprod⟩ := exists_of_mem_forall₂ h hm
  obtain ⟨hl, hr⟩ := List.mem_product.mp hlr
  exact hprod.totalsFit (hfit _ hl _ hr)

namespace Scalar

variable [One α] {n k : ℕ}

theorem TotalsWithin.mono {s : Scalar α} (hs : s.TotalsWithin n) (h : n ≤ k) : s.TotalsWithin k :=
  fun m hm => (hs m hm).mono h

theorem totalsWithin_constant (c : α) : (constant c).TotalsWithin n := by
  intro m hm
  rw [List.mem_singleton.mp hm]
  exact Monomial.totalsWithin_constant n c

theorem TotalsWithin.plus [Add α] {l r : Scalar α} (hl : l.TotalsWithin n)
    (hr : r.TotalsWithin n) : (l.plus r).TotalsWithin n := by
  intro m hm
  rcases toMonomials_plus l r with h | ⟨a, b, ha, -, -, h⟩
  · rw [h] at hm
    exact (List.mem_append.mp hm).elim (hl m) (hr m)
  · rw [h] at hm
    rw [List.mem_singleton.mp hm]
    exact (hl a (ha ▸ List.mem_cons_self)).withCoefficient _

theorem TotalsWithin.times [Mul α] {l r s : Scalar α} (hl : l.FactorsIn P) (hr : r.FactorsIn P)
    (h : l.times r = some s) (hln : l.TotalsWithin k) (hrn : r.TotalsWithin n) :
    s.TotalsWithin (k + n) := by
  obtain ⟨t, ht, -, hprod⟩ := exists_times hl hr
  rw [h] at ht
  cases ht
  exact hprod.totalsWithin hln hrn

theorem TotalsFitWith.times [Mul α] {l r s : Scalar α} (hlr : l.TotalsFitWith r)
    (hl : l.FactorsIn P) (hr : r.FactorsIn P) (h : l.times r = some s) : s.TotalsFit := by
  obtain ⟨t, ht, -, hprod⟩ := exists_times hl hr
  rw [h] at ht
  cases ht
  exact hprod.totalsFit hlr

theorem TotalsWithin.negated [Neg α] [Mul α] {s t : Scalar α} (hs : s.FactorsIn P)
    (h : s.negated = some t) (hn : s.TotalsWithin n) : t.TotalsWithin n :=
  TotalsWithin.times hs (factorsIn_constant (-1)) h hn (totalsWithin_constant (n := 0) (-1))

/-- Totals are read off the terms. -/
theorem TotalsWithin.congr {s t : Scalar α} (hs : s.TotalsWithin n)
    (h : t.toMonomials = s.toMonomials) : t.TotalsWithin n :=
  fun m hm => hs m (h ▸ hm)

/-- What simplifying leaves writes no variable twice in a term. -/
theorem totalsFit_simplified [Zero α] [Add α] [BEq α] (s : Scalar α) : s.simplified.TotalsFit := by
  cases s with
  | constant c => exact totalsWithin_constant c
  | «variable» v =>
    intro m hm
    rw [List.mem_singleton.mp hm]
    exact Monomial.totalsFit_of_nodup (List.nodup_singleton _)
  | monomial m =>
    intro k hk
    rw [List.mem_singleton.mp hk]
    exact m.normal_normalized.totalsFit
  | polynomial p =>
    intro k hk
    rcases Polynomial.mem_simplified hk with rfl | ⟨hnormal, -⟩
    · exact Monomial.totalsWithin_constant _ 0
    · exact hnormal.totalsFit

end Scalar

theorem Expression.TotalsWithin.mono [One α] {n k : ℕ} {e : Expression α} (he : e.TotalsWithin n)
    (h : n ≤ k) : e.TotalsWithin k :=
  fun s hs => (he s hs).mono h

theorem Expression.TotalsWithin.totalsFitWith [One α] {k n : ℕ} {d e : Expression α}
    (hd : d.TotalsWithin k) (he : e.TotalsWithin n) (h : k + n ≤ Monomial.largestWord) :
    d.TotalsFitWith e :=
  fun s hs t ht m hm l hl => (hd s hs m hm).totalsFitWith (he t ht l hl) h

/-! ## Smaller totals -/

/-- Every term has exact totals at most those of a term of the other scalar. -/
def Scalar.Below [One α] (s t : Scalar α) : Prop :=
  ∀ m ∈ s.toMonomials, ∃ k ∈ t.toMonomials, m.exactMap ≤ k.exactMap

/-- Every element is below an element of the other expression. -/
def Expression.Below [One α] (d e : Expression α) : Prop :=
  ∀ s ∈ d.elements, ∃ t ∈ e.elements, s.Below t

section Below

variable [One α]

theorem Scalar.Below.congr {s t u : Scalar α} (h : s.Below t)
    (hu : u.toMonomials = s.toMonomials) : u.Below t :=
  fun m hm => h m (hu ▸ hm)

theorem Expression.Below.totalsFitWith_left {d e r : Expression α} (h : d.Below e)
    (her : e.TotalsFitWith r) : d.TotalsFitWith r := by
  intro s hs t ht m hm k hk
  obtain ⟨s', hs', hbelow⟩ := h s hs
  obtain ⟨m', hm', hle⟩ := hbelow m hm
  exact Monomial.totalsFitWith_iff.mpr fun id => (Nat.add_le_add_right (hle id) _).trans
    (Monomial.totalsFitWith_iff.mp (her s' hs' t ht m' hm' k hk) id)

theorem Expression.Below.totalsFitWith_right {d e l : Expression α} (h : d.Below e)
    (hle : l.TotalsFitWith e) : l.TotalsFitWith d := by
  intro s hs t ht m hm k hk
  obtain ⟨t', ht', hbelow⟩ := h t ht
  obtain ⟨k', hk', hle'⟩ := hbelow k hk
  exact Monomial.totalsFitWith_iff.mpr fun id => (Nat.add_le_add_left (hle' id) _).trans
    (Monomial.totalsFitWith_iff.mp (hle s hs t' ht' m hm k' hk') id)

end Below

section Semiring

variable [CommSemiring α]

/-! ## The exact polynomial -/

/-- The polynomial that a monomial is written as. -/
noncomputable def Monomial.exactMeaning (m : Monomial α) : MvPolynomial VariableId α :=
  MvPolynomial.monomial m.exactMap m.coefficient

/-- The polynomial that a list of terms is written as. -/
noncomputable def termsExact (ms : List (Monomial α)) : MvPolynomial VariableId α :=
  (ms.map Monomial.exactMeaning).sum

/-- The polynomial that a scalar is written as. -/
noncomputable def Scalar.exactMeaning (s : Scalar α) : MvPolynomial VariableId α :=
  termsExact s.toMonomials

@[simp] theorem termsExact_nil : termsExact ([] : List (Monomial α)) = 0 := rfl

@[simp] theorem termsExact_cons (m : Monomial α) (ms : List (Monomial α)) :
    termsExact (m :: ms) = m.exactMeaning + termsExact ms := by
  simp [termsExact]

@[simp] theorem termsExact_append (ms ns : List (Monomial α)) :
    termsExact (ms ++ ns) = termsExact ms + termsExact ns := by
  simp [termsExact]

@[simp] theorem Monomial.exactMeaning_constant (c : α) :
    (constant c).exactMeaning = MvPolynomial.C c := rfl

@[simp] theorem Scalar.exactMeaning_constant (c : α) :
    (constant c).exactMeaning = MvPolynomial.C c := by
  simp [exactMeaning, toMonomials]

@[simp] theorem Scalar.exactMeaning_monomial (m : Monomial α) :
    (monomial m).exactMeaning = m.exactMeaning := by
  simp [exactMeaning, toMonomials]

theorem Scalar.exactMeaning_variable (v : Variable α) :
    («variable» v).exactMeaning = MvPolynomial.X v.id := by
  rw [exactMeaning, toMonomials, termsExact_cons, termsExact_nil, add_zero, Monomial.exactMeaning,
    Monomial.exactMap_term]
  rfl

/-- A coefficient that is not zero belongs to a term. -/
theorem exists_mem_of_coeff_termsExact {ms : List (Monomial α)} {s : VariableId →₀ ℕ}
    (h : coeff s (termsExact ms) ≠ 0) : ∃ m ∈ ms, m.exactMap = s := by
  induction ms with
  | nil => exact absurd (MvPolynomial.coeff_zero s) h
  | cons m ms ih =>
    by_cases hm : m.exactMap = s
    · exact ⟨m, List.mem_cons_self, hm⟩
    · rw [termsExact_cons, MvPolynomial.coeff_add, Monomial.exactMeaning,
        MvPolynomial.coeff_monomial, if_neg hm, zero_add] at h
      obtain ⟨n, hn, hexact⟩ := ih h
      exact ⟨n, List.mem_cons_of_mem _ hn, hexact⟩

/-! ## Exponents as words -/

/-- A polynomial with its exponents as words. -/
noncomputable def inWords : MvPolynomial VariableId α →+* WordPolynomial α :=
  AddMonoidAlgebra.mapDomainRingHom α wordsOf

theorem inWords_monomial (s : VariableId →₀ ℕ) (c : α) :
    inWords (MvPolynomial.monomial s c) = .single (wordsOf s) c :=
  AddMonoidAlgebra.mapDomain_single

theorem inWords_termsExact (ms : List (Monomial α)) :
    inWords (termsExact ms) = termsMeaning ms := by
  induction ms with
  | nil => exact map_zero inWords
  | cons m ms ih =>
    rw [termsExact_cons, map_add, ih, Monomial.exactMeaning, inWords_monomial,
      Monomial.wordsOf_exactMap, termsMeaning_cons, Monomial.meaning]

/-- The exact polynomial with its exponents as words is the meaning. -/
theorem Scalar.inWords_exactMeaning (s : Scalar α) : inWords s.exactMeaning = s.meaning :=
  inWords_termsExact s.toMonomials

/-- No exponent of the polynomial is above `n`. -/
def ExponentsWithin (n : ℕ) (q : MvPolynomial VariableId α) : Prop :=
  ∀ s, coeff s q ≠ 0 → ∀ id, s id ≤ n

/-- Exponents that fit in a word can be read back. -/
theorem coeff_inWords {q : MvPolynomial VariableId α}
    (hq : ExponentsWithin Monomial.largestWord q) {s : VariableId →₀ ℕ}
    (hs : ∀ id, s id ≤ Monomial.largestWord) : (inWords q).coeff (wordsOf s) = coeff s q := by
  have hfit : ∀ {t : VariableId →₀ ℕ}, (∀ id, t id ≤ Monomial.largestWord) →
      ∀ id, t id < UInt32.size := fun h id => Nat.lt_succ_of_le (h id)
  refine Finsupp.mapDomain_apply' {t : VariableId →₀ ℕ | ∀ id, t id ≤ Monomial.largestWord}
    (AddMonoidAlgebra.coeff q) ?_ ?_ hs
  · intro t ht id
    exact hq t (Finsupp.mem_support_iff.mp ht) id
  · intro t ht u hu h
    exact eq_of_wordsOf_eq (hfit ht) (hfit hu) h

/-- **Where the exponents fit in a word, nothing is lost**: polynomials that agree with their
exponents as words are one polynomial. -/
theorem eq_of_inWords_eq {p q : MvPolynomial VariableId α}
    (hp : ExponentsWithin Monomial.largestWord p) (hq : ExponentsWithin Monomial.largestWord q)
    (h : inWords p = inWords q) : p = q := by
  ext s
  by_cases hs : ∀ id, s id ≤ Monomial.largestWord
  · rw [← coeff_inWords hp hs, ← coeff_inWords hq hs, h]
  · -- no term of either has such exponents
    have hzero : ∀ {r : MvPolynomial VariableId α}, ExponentsWithin Monomial.largestWord r →
        coeff s r = 0 := fun hr => of_not_not fun hne => hs (hr s hne)
    rw [hzero hp, hzero hq]

namespace ExponentsWithin

variable {n k : ℕ} {p q : MvPolynomial VariableId α}

theorem mono (hp : ExponentsWithin n p) (h : n ≤ k) : ExponentsWithin k p :=
  fun s hs id => (hp s hs id).trans h

theorem zero : ExponentsWithin n (0 : MvPolynomial VariableId α) :=
  fun s hs => absurd (MvPolynomial.coeff_zero s) hs

theorem monomial {s : VariableId →₀ ℕ} (hs : ∀ id, s id ≤ n) (c : α) :
    ExponentsWithin n (MvPolynomial.monomial s c) := by
  intro t ht id
  rw [MvPolynomial.coeff_monomial] at ht
  obtain rfl : s = t := by
    by_contra hne
    exact ht (if_neg hne)
  exact hs id

theorem add (hp : ExponentsWithin n p) (hq : ExponentsWithin n q) : ExponentsWithin n (p + q) := by
  intro s hs
  by_cases h : coeff s p = 0
  · exact hq s fun hzero => hs (by rw [MvPolynomial.coeff_add, h, hzero, add_zero])
  · exact hp s h

theorem sum {qs : List (MvPolynomial VariableId α)} (h : ∀ q ∈ qs, ExponentsWithin n q) :
    ExponentsWithin n qs.sum := by
  induction qs with
  | nil => exact zero
  | cons q qs ih =>
    rw [List.sum_cons]
    exact (h q List.mem_cons_self).add (ih fun r hr => h r (List.mem_cons_of_mem _ hr))

theorem finsetSum {ι : Type} {s : Finset ι} {f : ι → MvPolynomial VariableId α}
    (h : ∀ i ∈ s, ExponentsWithin n (f i)) : ExponentsWithin n (∑ i ∈ s, f i) := by
  intro t ht
  rw [MvPolynomial.coeff_sum] at ht
  obtain ⟨i, hi, hne⟩ := Finset.exists_ne_zero_of_sum_ne_zero ht
  exact h i hi t hne

/-- An exponent of a product is a sum of exponents. -/
theorem mul (hp : ExponentsWithin n p) (hq : ExponentsWithin k q) :
    ExponentsWithin (n + k) (p * q) := by
  intro s hs id
  rw [MvPolynomial.coeff_mul] at hs
  obtain ⟨⟨t, u⟩, htu, hne⟩ := Finset.exists_ne_zero_of_sum_ne_zero hs
  have hsum : t + u = s := Finset.HasAntidiagonal.mem_antidiagonal.mp htu
  rw [← hsum, Finsupp.add_apply]
  exact Nat.add_le_add (hp t (left_ne_zero_of_mul hne) id) (hq u (right_ne_zero_of_mul hne) id)

theorem C (c : α) : ExponentsWithin n (MvPolynomial.C c : MvPolynomial VariableId α) :=
  monomial (fun _ => Nat.zero_le n) c

theorem pow (hp : ExponentsWithin n p) (e : ℕ) : ExponentsWithin (e * n) (p ^ e) := by
  induction e with
  | zero =>
    rw [pow_zero, ← MvPolynomial.C_1]
    exact C 1
  | succ e ih =>
    rw [pow_succ, Nat.succ_mul]
    exact ih.mul hp

end ExponentsWithin

theorem exponentsWithin_termsExact {n : ℕ} {ms : List (Monomial α)}
    (h : ∀ m ∈ ms, m.TotalsWithin n) : ExponentsWithin n (termsExact ms) := by
  refine .sum fun q hq => ?_
  obtain ⟨m, hm, rfl⟩ := List.mem_map.mp hq
  exact .monomial (Monomial.totalsWithin_iff.mp (h m hm)) m.coefficient

/-- The exponents of a product are those of the terms, added. -/
theorem Scalar.TotalsFitWith.exponentsWithin {s t : Scalar α} (h : s.TotalsFitWith t) :
    ExponentsWithin Monomial.largestWord (s.exactMeaning * t.exactMeaning) := by
  rw [exactMeaning, termsExact, ← List.sum_map_mul_right]
  refine .sum fun q hq => ?_
  obtain ⟨m, hm, rfl⟩ := List.mem_map.mp hq
  rw [exactMeaning, termsExact, ← List.sum_map_mul_left]
  refine .sum fun q hq => ?_
  obtain ⟨k, hk, rfl⟩ := List.mem_map.mp hq
  rw [Monomial.exactMeaning, Monomial.exactMeaning, MvPolynomial.monomial_mul]
  exact .monomial (Monomial.totalsFitWith_iff.mp (h m hm k hk)) _

theorem Scalar.TotalsWithin.exponentsWithin {n : ℕ} {s : Scalar α} (hs : s.TotalsWithin n) :
    ExponentsWithin n s.exactMeaning :=
  exponentsWithin_termsExact hs

/-- **Where the totals fit in a word, an equation of meanings is one of exact polynomials.** -/
theorem Scalar.TotalsFit.exactMeaning_eq {s : Scalar α} {q : MvPolynomial VariableId α}
    (hs : s.TotalsFit) (hq : ExponentsWithin Monomial.largestWord q)
    (h : s.meaning = inWords q) : s.exactMeaning = q :=
  eq_of_inWords_eq hs.exponentsWithin hq ((inWords_exactMeaning s).trans h)

theorem Scalar.TotalsFit.exactMeaning_congr {s t : Scalar α} (hs : s.TotalsFit) (ht : t.TotalsFit)
    (h : s.meaning = t.meaning) : s.exactMeaning = t.exactMeaning :=
  hs.exactMeaning_eq ht.exponentsWithin (h.trans t.inWords_exactMeaning.symm)

end Semiring

section Ring

variable [CommRing α]

theorem ExponentsWithin.sub {n : ℕ} {p q : MvPolynomial VariableId α} (hp : ExponentsWithin n p)
    (hq : ExponentsWithin n q) : ExponentsWithin n (p - q) := by
  intro s hs
  by_cases h : coeff s p = 0
  · exact hq s fun hzero => hs (by rw [MvPolynomial.coeff_sub, h, hzero, sub_zero])
  · exact hp s h

end Ring

end DecisionAlgebra
