import DecisionAlgebra.Proofs.Evaluation
import DecisionAlgebra.Proofs.Validity
import Mathlib.Algebra.MvPolynomial.Monad

/-!
# Substitution means evaluation at an updated point

Replacing a variable in a term splits off its power and multiplies the rest with the power of the
replacement. On exact polynomials this is: put the replacement in for the variable, and so evaluate
as if the variable had its value. A factor of the variable with total exponent zero is not
replaced, but it does not survive the collection of like terms, so the result is well-formed without
the variable.

For a list of replacements the points are updated from the last to the first, because an earlier
replacement may bring in variables that a later one replaces. Each step turns a question about the
result into the same question about the expression before it, at the point before it. The exponents
of the exact polynomials must fit in a word all along.
-/

namespace DecisionAlgebra

open MvPolynomial (eval)

variable {α : Type} {P : VariableId → Prop}

/-! ## Terms without a variable -/

namespace Monomial

/-- Dropping the factors of a variable drops it from the exact map. -/
theorem exactMap_without (m : Monomial α) (v : Variable α) :
    (m.without v).exactMap = m.exactMap.erase v.id := by
  have h : ∀ fs : List (Variable α × UInt32),
      exactSum Variable.id (fs.filter fun f => !(f.1 == v)) =
        (exactSum Variable.id fs).erase v.id := by
    intro fs
    induction fs with
    | nil => exact (Finsupp.erase_zero v.id).symm
    | cons f fs ih =>
      rw [exactSum_cons, Finsupp.erase_add]
      by_cases hf : f.1.id = v.id
      · rw [List.filter_cons_of_neg (by simp [hf]), ih, hf, Finsupp.erase_single, zero_add]
      · rw [List.filter_cons_of_pos (by simp [hf]), exactSum_cons, ih,
          Finsupp.erase_single_ne (Ne.symm hf)]
  rw [without, exactMap_ofFactors, h]
  rfl

end Monomial

section Ring

variable [CommRing α]

/-! ## Replacing in a polynomial -/

/-- A polynomial with another put in for an identifier. -/
noncomputable def replaced (id : VariableId) (q : MvPolynomial VariableId α) :
    MvPolynomial VariableId α →ₐ[α] MvPolynomial VariableId α :=
  MvPolynomial.bind₁ (Function.update MvPolynomial.X id q)

theorem replaced_X_self (id : VariableId) (q : MvPolynomial VariableId α) :
    replaced id q (MvPolynomial.X id) = q := by
  rw [replaced, MvPolynomial.bind₁_X_right, Function.update_self]

theorem replaced_X_of_ne {id j : VariableId} (h : j ≠ id) (q : MvPolynomial VariableId α) :
    replaced id q (MvPolynomial.X j) = MvPolynomial.X j := by
  rw [replaced, MvPolynomial.bind₁_X_right, Function.update_of_ne h]

/-- In a monomial the power of the identifier is split off. -/
theorem replaced_monomial (id : VariableId) (q : MvPolynomial VariableId α) (s : VariableId →₀ ℕ)
    (c : α) : replaced id q (MvPolynomial.monomial s c) =
      MvPolynomial.monomial (s.erase id) c * q ^ s id := by
  have hrest : ((s.erase id).prod fun j e =>
      (Function.update MvPolynomial.X id q j : MvPolynomial VariableId α) ^ e) =
        (s.erase id).prod fun j e => MvPolynomial.X j ^ e := by
    refine Finsupp.prod_congr fun j hj => ?_
    rw [Finsupp.support_erase] at hj
    rw [Function.update_of_ne (Finset.ne_of_mem_erase hj)]
  have hsplit := Finsupp.mul_prod_erase' s id
    (fun j e => (Function.update MvPolynomial.X id q j : MvPolynomial VariableId α) ^ e)
    fun _ => pow_zero _
  rw [Function.update_self, hrest] at hsplit
  rw [replaced, MvPolynomial.bind₁_monomial, MvPolynomial.monomial_eq, mul_assoc,
    mul_comm (Finsupp.prod _ _)]
  exact congrArg (MvPolynomial.C c * ·) hsplit.symm

/-- Its value is that of the polynomial where the identifier has the value of what is put in. -/
theorem eval_replaced (x : VariableId → α) (id : VariableId) (q p : MvPolynomial VariableId α) :
    eval x (replaced id q p) = eval (Function.update x id (eval x q)) p := by
  have hpoint : (fun j => eval x (Function.update MvPolynomial.X id q j)) =
      Function.update x id (eval x q) := by
    funext j
    by_cases hj : j = id
    · rw [hj, Function.update_self, Function.update_self]
    · rw [Function.update_of_ne hj, Function.update_of_ne hj, MvPolynomial.eval_X]
  rw [← hpoint]
  exact MvPolynomial.eval₂Hom_bind₁ (RingHom.id α) x (Function.update MvPolynomial.X id q) p

/-- The exponents grow by as much as is put in for each power of the identifier. -/
theorem ExponentsWithin.replaced {n k : ℕ} {p q : MvPolynomial VariableId α} {id : VariableId}
    (hp : ExponentsWithin n p) (hq : ExponentsWithin k q) :
    ExponentsWithin (n + n * k) (DecisionAlgebra.replaced id q p) := by
  rw [p.as_sum, map_sum]
  refine .finsetSum fun s hs => ?_
  have hs := hp s (MvPolynomial.mem_support_iff.mp hs)
  rw [replaced_monomial]
  refine (ExponentsWithin.monomial (fun j => ?_) _).mul ((hq.pow (s id)).mono ?_)
  · by_cases hj : j = id
    · rw [hj, Finsupp.erase_same]
      exact Nat.zero_le n
    · rw [Finsupp.erase_ne hj]
      exact hs j
  · exact Nat.mul_le_mul_right k (hs id)

/-! ## Terms -/

/-- Replacing a variable in a term puts the replacement in for the variable. -/
theorem Monomial.meaning_substitute {m : Monomial α} {v : Variable α} {r t : Scalar α}
    (hm : m.FactorsIn fun id => id = v.id ∨ P id) (hfit : m.TotalsFit) (hr : r.FactorsIn P)
    (h : m.substitute v r = some t) :
    t.meaning = inWords (replaced v.id r.exactMeaning m.exactMeaning) := by
  rw [exactMeaning, replaced_monomial, map_mul, map_pow, r.inWords_exactMeaning, inWords_monomial,
    ← exactMap_without, wordsOf_exactMap, hfit.exactMap_eq, ← exponentOf_eq]
  rw [substitute] at h
  by_cases hcontains : m.contains v = true
  · have hwithout : (Scalar.monomial (m.without v)).FactorsIn P := .singleton hm.without
    obtain ⟨power, hpower, hpowerIn⟩ := Scalar.exists_power hr (m.exponentOf v).toNat
    rw [if_pos hcontains, hpower] at h
    have ht : (Scalar.monomial (m.without v)).times power = some t := h
    rw [Scalar.meaning_times hwithout hpowerIn ht, Scalar.meaning_power hr hpower,
      Scalar.meaning_monomial]
    rfl
  · rw [if_neg hcontains] at h
    cases h
    -- no factor of the variable counts, so there is nothing to leave out
    have hzero : m.exponentMap v.id = 0 := not_not.mp fun hne => hcontains (contains_iff.mpr hne)
    have herase : m.exactMap.erase v.id = m.exactMap := by
      refine Finsupp.erase_of_notMem_support (Finsupp.notMem_support_iff.mpr ?_)
      rw [hfit.exactMap_eq, hzero, UInt32.toNat_zero]
    rw [exponentOf_eq, hzero, UInt32.toNat_zero, pow_zero, mul_one, ← wordsOf_exactMap,
      exactMap_without, herase, wordsOf_exactMap]
    exact Scalar.meaning_monomial m

/-! ## Scalars -/

variable [BEq α] [LawfulBEq α]

/-- **Replacing a variable in a scalar** puts the replacement in for the variable. -/
theorem Scalar.meaning_substitute {s : Scalar α} {v : Variable α} {r t : Scalar α}
    (hs : s.FactorsIn fun id => id = v.id ∨ P id) (hfit : s.TotalsFit) (hr : r.FactorsIn P)
    (h : s.substitute v r = some t) :
    t.meaning = inWords (replaced v.id r.exactMeaning s.exactMeaning) := by
  cases s with
  | constant c =>
    cases h
    rw [← inWords_exactMeaning, exactMeaning_constant, ← MvPolynomial.algebraMap_eq,
      AlgHom.commutes]
  | «variable» w =>
    rw [substitute] at h
    cases h
    rw [exactMeaning_variable]
    by_cases hw : w.id = v.id
    · rw [if_pos (Variable.beq_iff.mpr hw), hw, replaced_X_self, inWords_exactMeaning]
    · rw [if_neg fun h => hw (Variable.beq_iff.mp h), replaced_X_of_ne hw, ← exactMeaning_variable,
        inWords_exactMeaning]
  | monomial m =>
    obtain ⟨u, hu, rfl⟩ := Option.map_eq_some_iff.mp h
    rw [meaning_simplified, exactMeaning_monomial,
      Monomial.meaning_substitute (hs.each m List.mem_cons_self) (hfit m List.mem_cons_self) hr hu]
  | polynomial p =>
    obtain ⟨ts, hts, ht⟩ := Option.bind_eq_some_iff.mp h
    cases ht
    have hterms : ∀ {ms : List (Monomial α)} {us : List (Scalar α)},
        List.Forall₂ (fun m t => m.substitute v r = some t) ms us →
        (∀ m ∈ ms, m.FactorsIn (fun id => id = v.id ∨ P id) ∧ m.TotalsFit) →
        (us.map meaning).sum = inWords (replaced v.id r.exactMeaning (termsExact ms)) := by
      intro ms us hus hms
      induction hus with
      | nil => rw [List.map_nil, List.sum_nil, termsExact_nil, map_zero, map_zero]
      | cons hu _ ih =>
        obtain ⟨hin, hmfit⟩ := hms _ List.mem_cons_self
        rw [List.map_cons, List.sum_cons, Monomial.meaning_substitute hin hmfit hr hu,
          ih fun m hm => hms m (List.mem_cons_of_mem _ hm), termsExact_cons, map_add, map_add]
    show termsMeaning (Polynomial.simplified ⟨(sum ts).toMonomials⟩).monomials = _
    rw [Polynomial.termsMeaning_simplified]
    exact (meaning_sum ts).trans
      (hterms (mapM_eq_some.mp hts) fun m hm => ⟨hs.each m hm, hfit m hm⟩)

omit [LawfulBEq α] in
/-- The totals fit after a replacement, where what replaces the variable has totals that fit. -/
theorem Scalar.TotalsFit.substitute {s : Scalar α} {v : Variable α} {r t : Scalar α}
    (hr : r.TotalsFit) (h : s.substitute v r = some t) : t.TotalsFit := by
  cases s with
  | constant c =>
    cases h
    exact totalsWithin_constant c
  | «variable» w =>
    rw [Scalar.substitute] at h
    cases h
    split
    next => exact hr
    next => exact totalsFit_simplified («variable» w)
  | monomial m =>
    obtain ⟨u, -, rfl⟩ := Option.map_eq_some_iff.mp h
    exact totalsFit_simplified u
  | polynomial p =>
    obtain ⟨ts, -, ht⟩ := Option.bind_eq_some_iff.mp h
    cases ht
    exact totalsFit_simplified (polynomial (sum ts).toPolynomial)

/-- **What a replacement leaves is written as the polynomial with the replacement put in**, where
the exponents fit in a word. -/
theorem Scalar.exactMeaning_substitute {s : Scalar α} {v : Variable α} {r t : Scalar α}
    (hs : s.FactorsIn fun id => id = v.id ∨ P id) (hfit : s.TotalsFit) (hr : r.FactorsIn P)
    (hrfit : r.TotalsFit) (h : s.substitute v r = some t)
    (hwithin : ExponentsWithin Monomial.largestWord
      (replaced v.id r.exactMeaning s.exactMeaning)) :
    t.exactMeaning = replaced v.id r.exactMeaning s.exactMeaning :=
  (hrfit.substitute h).exactMeaning_eq hwithin (meaning_substitute hs hfit hr h)

theorem Scalar.exists_replaced {s : Scalar α} {v : Variable α} {r : Scalar α}
    (hs : s.FactorsIn fun id => id = v.id ∨ P id) (hfit : s.TotalsFit) (hr : r.FactorsIn P)
    (hrfit : r.TotalsFit) (hwithin : ExponentsWithin Monomial.largestWord
      (replaced v.id r.exactMeaning s.exactMeaning)) :
    ∃ t, s.substitute v r = some t ∧ t.FactorsIn P ∧
      t.exactMeaning = replaced v.id r.exactMeaning s.exactMeaning := by
  obtain ⟨t, ht, hin⟩ := Scalar.exists_substitute hs hr
  exact ⟨t, ht, hin, exactMeaning_substitute hs hfit hr hrfit ht hwithin⟩

/-! ## Expressions -/

namespace Expression

omit [BEq α] [LawfulBEq α] in
/-- What the elements are written as decides their values: after a replacement they are those at the
point where the variable has the value of what replaces it. -/
theorem valueGrid_replaced {e e' : Expression α} {id : VariableId} {r : MvPolynomial VariableId α}
    (hform : e'.form = e.form) (hdims : e'.dims = e.dims) (hexact : e'.elements.map
      Scalar.exactMeaning = e.elements.map fun s => replaced id r s.exactMeaning) (q : Point α) :
    e'.valueGrid q = e.valueGrid (q.set id (eval q.valuation r)) := by
  have hvalues : e'.elements.map (fun t => Scalar.constant (eval q.valuation t.exactMeaning)) =
      e.elements.map fun s => Scalar.constant
        (eval (q.set id (eval q.valuation r)).valuation s.exactMeaning) := by
    have hmap := congrArg (List.map fun T => Scalar.constant (eval q.valuation T)) hexact
    rw [List.map_map, List.map_map] at hmap
    refine hmap.trans (List.map_congr_left fun s _ => ?_)
    rw [Function.comp_apply, eval_replaced, Point.valuation_set]
  rw [valueGrid, valueGrid, hform, hdims, hvalues]

/-- One replacement turns a question about the result into one about the expression before it. -/
theorem exists_substitute {e : Expression α} {v : Variable α} {r : Scalar α} {q : Point α}
    (hv : v.id.isDefined = true) (hr : r.FactorsIn q.Gives)
    (he : e.FactorsIn (q.set v.id (eval q.valuation r.exactMeaning)).Gives) (hfit : e.TotalsFit)
    (hrfit : r.TotalsFit) (hwithin : ∀ s ∈ e.elements, ExponentsWithin Monomial.largestWord
      (replaced v.id r.exactMeaning s.exactMeaning)) :
    ∃ e', (e.substitute v (.scalar r)).outcome = .ok e' ∧ e'.FactorsIn q.Gives ∧ e'.TotalsFit ∧
      e'.dims = e.dims ∧
      (e'.elements.map Scalar.exactMeaning =
        e.elements.map fun s => replaced v.id r.exactMeaning s.exactMeaning) ∧
      e'.valueGrid q = e.valueGrid (q.set v.id (eval q.valuation r.exactMeaning)) := by
  have hstep : ∀ s ∈ e.elements, ∃ t, s.substitute v r = some t ∧ t.FactorsIn q.Gives ∧
      t.exactMeaning = replaced v.id r.exactMeaning s.exactMeaning := by
    intro s hs
    have hs' := (he.each s hs).mono fun _ h => (Point.gives_set hv).mp h
    exact Scalar.exists_replaced hs' (hfit.of_mem hs) hr hrfit (hwithin s hs)
  obtain ⟨ts, hts⟩ := exists_forall₂ hstep
  have hgrid : (Grid.ofExpression e).mapM? (·.substitute v r) = some ⟨e.form, e.dims, ts⟩ :=
    Grid.mapM?_eq_some.mpr ⟨rfl, rfl, hts.imp fun _ _ h => h.1⟩
  have hfits := (Grid.fits_ofExpression he.length_eq).mapM? hgrid
  obtain ⟨e', he', htyped⟩ := Grid.exists_toExpression hfits
  have hne : ts ≠ [] := by
    intro hnil
    rw [hnil, List.forall₂_nil_right_iff] at hts
    exact he.ne_nil hts
  have hin : ∀ t ∈ ts, t.FactorsIn q.Gives := by
    intro t ht
    obtain ⟨s, -, hst⟩ := exists_of_mem_forall₂ hts ht
    exact hst.2.1
  -- lifting into one kind changes no terms, so only the replacement counts
  have hexact : e'.elements.map Scalar.exactMeaning =
      e.elements.map fun s => replaced v.id r.exactMeaning s.exactMeaning := by
    rw [htyped.elements_eq, List.map_map, ← map_eq_map_of_forall₂ (hts.imp fun _ _ h => h.2.2)]
    exact List.map_congr_left fun t _ => t.exactMeaning_promote _
  refine ⟨e', ?_, htyped.factorsIn hfits hne hin, fun s hs => ?_, htyped.dims_eq, hexact, ?_⟩
  · have hcheck : e.check = .ok () := check_eq_ok.mpr (he.mono fun _ h => h.1)
    have hcheckReplacement : (Expression.scalar r).check = .ok () :=
      check_eq_ok.mpr (factorsIn_scalar.mpr (hr.mono fun _ h => h.1))
    exact substitute_eq_ok.mpr ⟨hcheck, hv, hcheckReplacement, r, _, rfl, hgrid, he'⟩
  · rw [htyped.elements_eq] at hs
    obtain ⟨t, ht, rfl⟩ := List.mem_map.mp hs
    obtain ⟨s, -, hst, -⟩ := exists_of_mem_forall₂ hts ht
    exact (hrfit.substitute hst).congr (Scalar.toMonomials_promote t _)
  · exact valueGrid_replaced htyped.form_eq htyped.dims_eq hexact q

end Expression

/-! ## Lists of replacements -/

/-- The point at which the expression before a list of replacements is evaluated: from the last
replacement to the first, the variable gets the value of its replacement. -/
def Point.before (p : Point α) : List (Variable α × Scalar α) → Except Error (Point α)
  | [] => .ok p
  | s :: subs => do
    let q ← p.before subs
    return q.set s.1.id (← s.2.evaluate q)

/-- The polynomials that arise when the replacements are put in one after the other have no
exponents above `n`. -/
def ReplacementsWithin (n : ℕ) :
    List (Variable α × Scalar α) → MvPolynomial VariableId α → Prop
  | [], _ => True
  | s :: subs, p =>
    ExponentsWithin n (replaced s.1.id s.2.exactMeaning p) ∧
      ReplacementsWithin n subs (replaced s.1.id s.2.exactMeaning p)

omit [BEq α] [LawfulBEq α] in
theorem ReplacementsWithin.mono {n k : ℕ} (hnk : n ≤ k) {subs : List (Variable α × Scalar α)} :
    ∀ {p : MvPolynomial VariableId α}, ReplacementsWithin n subs p →
      ReplacementsWithin k subs p := by
  induction subs with
  | nil => exact fun h => h
  | cons s subs ih => exact fun h => ⟨h.1.mono hnk, ih h.2⟩

namespace Expression

omit [LawfulBEq α] in
theorem substituteAll_singleton (e : Expression α) (v : Variable α) (r : Scalar α) :
    e.substituteAll [(v, r)] = e.substitute v (.scalar r) := by
  show Traced.andThen (e.substitute v (.scalar r)) (fun e' => Traced.quiet (.ok e')) = _
  unfold Traced.andThen Traced.quiet
  cases h : (e.substitute v (.scalar r)).outcome with
  | ok e' =>
    show Traced.mk ((e.substitute v (.scalar r)).events ++ []) (.ok e') = _
    rw [List.append_nil, ← h]
  | error err =>
    show Traced.mk (e.substitute v (.scalar r)).events (.error err) = _
    rw [← h]

theorem exists_substituteAll {p : Point α} (subs : List (Variable α × Scalar α)) :
    ∀ {e : Expression α} {p₀ : Point α}, (∀ s ∈ subs, s.1.id.isDefined = true) →
      (∀ s ∈ subs, s.2.TotalsWithin maxPower) → p.before subs = .ok p₀ → e.FactorsIn p₀.Gives →
      e.TotalsFit →
      (∀ s ∈ e.elements, ReplacementsWithin Monomial.largestWord subs s.exactMeaning) →
      ∃ e', (e.substituteAll subs).outcome = .ok e' ∧ e'.FactorsIn p.Gives ∧
        e'.dims = e.dims ∧ e'.valueGrid p = e.valueGrid p₀ := by
  induction subs with
  | nil =>
    intro e p₀ _ _ hbefore he _ _
    cases hbefore
    exact ⟨e, rfl, he, rfl, rfl⟩
  | cons s subs ih =>
    intro e p₀ hvars htotals hbefore he hfit hwithin
    rw [Point.before, bind_eq_ok] at hbefore
    obtain ⟨q, hq, hset⟩ := hbefore
    rw [bind_eq_ok] at hset
    obtain ⟨x, hx, hp₀⟩ := hset
    rw [pure_eq_ok] at hp₀
    have hs := htotals s List.mem_cons_self
    rw [Scalar.evaluate_eq_ok hs.powersWithin] at hx
    obtain ⟨hr, rfl⟩ := hx
    subst hp₀
    -- the first replacement leads from `p₀` to `q`, the others lead from `q` to `p`
    obtain ⟨e₁, he₁, hin₁, hfit₁, hdims₁, hexact₁, hvalues₁⟩ :=
      exists_substitute (hvars s List.mem_cons_self) hr he hfit (hs.mono maxPower_le_largestWord)
        fun t ht => (hwithin t ht).1
    have hwithin₁ : ∀ t ∈ e₁.elements,
        ReplacementsWithin Monomial.largestWord subs t.exactMeaning := by
      intro t ht
      have hmem := List.mem_map_of_mem (f := Scalar.exactMeaning) ht
      rw [hexact₁] at hmem
      obtain ⟨u, hu, hut⟩ := List.mem_map.mp hmem
      exact hut ▸ (hwithin u hu).2
    obtain ⟨e', he', hin', hdims', hvalues'⟩ :=
      ih (fun t ht => hvars t (List.mem_cons_of_mem _ ht))
        (fun t ht => htotals t (List.mem_cons_of_mem _ ht)) hq hin₁ hfit₁ hwithin₁
    refine ⟨e', ?_, hin', hdims'.trans hdims₁, hvalues'.trans hvalues₁⟩
    show (e.substitute s.1 (.scalar s.2) >>= fun e => e.substituteAll subs).outcome = _
    rw [Traced.outcome_bind, bind_eq_ok]
    exact ⟨e₁, he₁, he'⟩

/-- **Substitution means evaluation at an updated point.** Replace variables one after the other, in
an expression that has a value at the point from before the replacements. That succeeds, and the
result has the same shape and the same value, provided that no total exponent is above the largest
power: neither in the expression nor in the replacements, and not in what arises when they are put
in. -/
theorem substituteAll_evaluate {subs : List (Variable α × Scalar α)} {e y : Expression α}
    {p p₀ : Point α} (hvars : ∀ s ∈ subs, s.1.id.isDefined = true)
    (hsubs : ∀ s ∈ subs, s.2.TotalsWithin maxPower) (hbefore : p.before subs = .ok p₀)
    (he : e.TotalsWithin maxPower)
    (hwithin : ∀ s ∈ e.elements, ReplacementsWithin maxPower subs s.exactMeaning)
    (hy : e.evaluate p₀ = .ok y) :
    ∃ e', (e.substituteAll subs).outcome = .ok e' ∧ e'.dims = e.dims ∧
      (e'.PowersWithin → e'.evaluate p = .ok y) ∧
      ∀ v r, subs = [(v, r)] → (e.substitute v (.scalar r)).outcome = .ok e' := by
  obtain ⟨hin, hvalue⟩ := (evaluate_eq_ok he.powersWithin).mp hy
  obtain ⟨e', he', hin', hdims, hvalues⟩ := exists_substituteAll subs hvars hsubs hbefore hin
    (he.mono maxPower_le_largestWord) fun s hs => (hwithin s hs).mono maxPower_le_largestWord
  refine ⟨e', he', hdims, fun hp => ?_, fun v r hsubs => ?_⟩
  · rw [evaluate_eq_ok hp, hvalues]
    exact ⟨hin', hvalue⟩
  · rw [← substituteAll_singleton, ← hsubs]
    exact he'

end Expression

end Ring

/-- In `x x`, replace `x` by `x + 1` and then `x` by `2 y`. -/
theorem Expression.substituteAll_evaluate_square :
    let x : Variable ℤ := .numbered 0
    let y : Variable ℤ := .numbered 1
    let subs : List (Variable ℤ × Scalar ℤ) :=
      [(x, .polynomial ⟨[⟨1, [x], [1]⟩, ⟨1, [], []⟩]⟩), (x, .monomial ⟨2, [y], [1]⟩)]
    let e : Expression ℤ := .scalar (.monomial ⟨1, [x, x], [1, 1]⟩)
    let p : Point ℤ := .ofList [(y, 3)]
    ∃ e', (e.substituteAll subs).outcome = .ok e' ∧ e'.evaluate p = .ok (.constant 49) := by
  intro x y subs e p
  have hbefore : p.before subs = .ok ((p.set x.id 6).set x.id 7) := by with_unfolding_all rfl
  have hvalue : e.evaluate ((p.set x.id 6).set x.id 7) = .ok (.constant 49) := by cbv
  have htotals : e.TotalsWithin 2 := by decide
  have hfirst : (subs[0]).2.TotalsWithin 1 := by decide
  have hsecond : (subs[1]).2.TotalsWithin 1 := by decide
  have hwithin : ∀ s ∈ e.elements, ReplacementsWithin maxPower subs s.exactMeaning := by
    intro s hs
    have hzero : ExponentsWithin 2 s.exactMeaning :=
      Scalar.TotalsWithin.exponentsWithin (htotals s hs)
    have hone : ExponentsWithin 4 (replaced x.id (subs[0]).2.exactMeaning s.exactMeaning) :=
      hzero.replaced hfirst.exponentsWithin
    have htwo : ExponentsWithin 8 (replaced x.id (subs[1]).2.exactMeaning
        (replaced x.id (subs[0]).2.exactMeaning s.exactMeaning)) :=
      hone.replaced hsecond.exponentsWithin
    exact ⟨hone.mono (by decide), htwo.mono (by decide), trivial⟩
  obtain ⟨e', he', -, heval, -⟩ := substituteAll_evaluate (by decide) (by decide) hbefore
    (by decide) hwithin hvalue
  refine ⟨e', he', heval ?_⟩
  have hresult : (e.substituteAll subs).outcome = .ok (.scalar (.polynomial
      ⟨[⟨4, [y], [2]⟩, ⟨4, [y], [1]⟩, ⟨1, [], []⟩]⟩)) := by cbv
  rw [hresult] at he'
  cases he'
  decide

end DecisionAlgebra
