import DecisionAlgebra.Proofs.Closure
import DecisionAlgebra.Proofs.Evaluation

/-!
# The operators compute what they say

A sum, a difference or a product of expressions is computed on terms, by whichever path the kinds of
the operands call for. Here the paths are forgotten: place by place, the polynomial that the result
stands for is the sum, the difference or the product of the polynomials of the operands, and entry
by entry that of a matrix product is the sum of the products over the inner index. This holds for
words as exponents without any bound. Where no total exponent is above the largest power that
evaluation takes, the totals of a product still fit in a word; then the exact polynomials add and
multiply as well, and the values of the result are computed from the values of the operands.
-/

namespace DecisionAlgebra

open MvPolynomial (eval)

variable {α : Type} {P : VariableId → Prop}

namespace Expression

/-- A table of entries, where a scalar has its one entry everywhere. -/
def repeated {β : Type} (e : Expression α) (A : Nat → Nat → β) (i j : Nat) : β :=
  if e.isScalar then A 0 0 else A i j

section Ring

variable [CommRing α]

/-- The element for a place means the entry there, repeated if need be. -/
theorem meaning_of_spread? {e : Expression α} {shape : Shape}
    (hshape : e.form = .scalar ∨ shape = e.dims) {i j : Nat} {a : Scalar α}
    (ha : (Grid.ofExpression e).spread? (i * shape.cols + j) = some a) :
    e.repeated e.meaningAt i j = a.meaning := by
  by_cases hform : e.form = .scalar
  · have hzero : e.elements[0]? = some a := (if_pos hform).symm.trans ha
    rw [repeated, if_pos (isScalar_iff.mpr hform), meaningAt, dims_of_scalar hform]
    show (e.elements[0]?).elim 0 Scalar.meaning = _
    rw [hzero]
    rfl
  · have hplace : e.elements[i * shape.cols + j]? = some a := (if_neg hform).symm.trans ha
    rw [repeated, if_neg (fun h => hform (isScalar_iff.mp h)), meaningAt,
      ← hshape.resolve_left hform, hplace]
    rfl

/-- The expression is well-formed over `P`, and its entries mean what `M` says. -/
structure Means (P : VariableId → Prop) (e : Expression α)
    (M : Nat → Nat → WordPolynomial α) : Prop where
  factorsIn : e.FactorsIn P
  meaning_eq : ∀ i < e.dims.rows, ∀ j < e.dims.cols, e.meaningAt i j = M i j

/-- What a combination of elements means, given what the combining function means. -/
theorem means_of_combines {f : Scalar α → Scalar α → Option (Scalar α)} {l r e : Expression α}
    (hl : l.FactorsIn P) (hr : r.FactorsIn P)
    (h : Grid.Combines f (.ofExpression l) (.ofExpression r) e) (he : e.FactorsIn P)
    {op : WordPolynomial α → WordPolynomial α → WordPolynomial α}
    (hf : ∀ {a b s : Scalar α}, a.FactorsIn P → b.FactorsIn P → f a b = some s →
      s.meaning = op a.meaning b.meaning) :
    CommonDims l r e.dims ∧ e.Means P fun i j =>
      op (l.repeated l.meaningAt i j) (r.repeated r.meaningAt i j) := by
  refine ⟨commonDims_of_combines h, he, fun i hi j hj => ?_⟩
  obtain ⟨a, b, s, t, ha, hb, hs, ht, hterms⟩ := h.element _ (Shape.place_lt hi hj)
  have hmeaning := hf (hl.each a (Grid.mem_of_spread? ha)) (hr.each b (Grid.mem_of_spread? hb)) hs
  rw [meaning_of_spread? h.left ha, meaning_of_spread? h.right hb, ← hmeaning, meaningAt, ht]
  show termsMeaning t.toMonomials = termsMeaning s.toMonomials
  rw [hterms]

/-! ## Exact entries -/

theorem inWords_repeated (e : Expression α) (i j : Nat) :
    inWords (e.repeated e.exactAt i j) = e.repeated e.meaningAt i j := by
  unfold repeated
  split <;> exact e.inWords_exactAt _ _

theorem TotalsWithin.repeated {n : ℕ} {e : Expression α} (he : e.TotalsWithin n) (i j : Nat) :
    ExponentsWithin n (e.repeated e.exactAt i j) := by
  unfold Expression.repeated
  split <;> exact he.exponentsWithin _ _

/-- The expression is well-formed over `P`, and its entries are written as `T` says. -/
structure Writes (P : VariableId → Prop) (e : Expression α)
    (T : Nat → Nat → MvPolynomial VariableId α) : Prop where
  factorsIn : e.FactorsIn P
  exactAt_eq : ∀ i < e.dims.rows, ∀ j < e.dims.cols, e.exactAt i j = T i j

/-- What an expression means is what it is written as, where the exponents fit in a word. -/
theorem Means.writes {e : Expression α} {M : Nat → Nat → WordPolynomial α}
    {T : Nat → Nat → MvPolynomial VariableId α} (h : e.Means P M) (he : e.TotalsFit)
    (hT : ∀ i j, ExponentsWithin Monomial.largestWord (T i j))
    (hM : ∀ i j, inWords (T i j) = M i j) : e.Writes P T where
  factorsIn := h.factorsIn
  exactAt_eq i hi j hj := by
    refine eq_of_inWords_eq (he.exponentsWithin i j) (hT i j) ?_
    rw [e.inWords_exactAt, h.meaning_eq i hi j hj, hM]

/-- What an expression is written as is what it evaluates to. -/
theorem Writes.hasValues {p : Point α} {e : Expression α}
    {T : Nat → Nat → MvPolynomial VariableId α}
    (h : e.Writes p.Gives T) (he : e.PowersWithin) {A : Nat → Nat → α}
    (hA : ∀ i j, eval p.valuation (T i j) = A i j) : e.HasValues p A := by
  obtain ⟨v, hv, hform, hdims, hentry⟩ := Expression.hasValues he h.factorsIn
  refine ⟨v, hv, hform, hdims, fun i hi j hj => ?_⟩
  rw [hentry i hi j hj]
  show Except.ok (Scalar.constant (eval p.valuation (e.exactAt i j))) = _
  rw [h.exactAt_eq i hi j hj, hA]

theorem eval_repeated (p : Point α) (e : Expression α) (i j : Nat) :
    eval p.valuation (e.repeated e.exactAt i j) =
      e.repeated (fun i j => eval p.valuation (e.exactAt i j)) i j := by
  unfold repeated
  split <;> rfl

/-- What a combination of elements has for totals, given what each combination has. -/
theorem totalsWithin_of_combines {f : Scalar α → Scalar α → Option (Scalar α)}
    {l r e : Expression α} (h : Grid.Combines f (.ofExpression l) (.ofExpression r) e)
    {n : ℕ} (hf : ∀ {a b s : Scalar α}, a ∈ l.elements → b ∈ r.elements → f a b = some s →
      s.TotalsWithin n) : e.TotalsWithin n := by
  intro t ht
  obtain ⟨a, ha, b, hb, s, hs, hterms⟩ := h.exists_of_mem ht
  exact (hf ha hb hs).congr hterms

/-! ## Sums and differences -/

theorem means_of_plus {l r e : Expression α} (hl : l.FactorsIn P) (hr : r.FactorsIn P)
    (h : (l.plus r).outcome = .ok e) :
    CommonDims l r e.dims ∧ e.Means P fun i j =>
      l.repeated l.meaningAt i j + r.repeated r.meaningAt i j := by
  obtain ⟨hcombines, hin⟩ := combines_of_plus hl hr h
  refine means_of_combines hl hr hcombines hin fun {a b s} ha hb hs => ?_
  cases hs
  exact Scalar.meaning_plus a b

theorem TotalsWithin.plus {l r e : Expression α} (hl : l.FactorsIn P) (hr : r.FactorsIn P)
    (h : (l.plus r).outcome = .ok e) {n : ℕ} (hln : l.TotalsWithin n) (hrn : r.TotalsWithin n) :
    e.TotalsWithin n := by
  obtain ⟨hcombines, -⟩ := combines_of_plus hl hr h
  refine totalsWithin_of_combines hcombines fun {a b s} ha hb hs => ?_
  cases hs
  exact (hln a ha).plus (hrn b hb)

/-- A sum of expressions whose totals fit in a word is written as the sum. -/
theorem writes_of_plus {l r e : Expression α} (hl : l.FactorsIn P) (hr : r.FactorsIn P)
    (h : (l.plus r).outcome = .ok e) (hlt : l.TotalsFit) (hrt : r.TotalsFit) :
    e.Writes P fun i j => l.repeated l.exactAt i j + r.repeated r.exactAt i j := by
  refine (means_of_plus hl hr h).2.writes (hlt.plus hl hr h hrt)
    (fun i j => (hlt.repeated i j).add (hrt.repeated i j)) fun i j => ?_
  rw [map_add, inWords_repeated, inWords_repeated]

theorem means_of_minus {l r e : Expression α} (hl : l.FactorsIn P) (hr : r.FactorsIn P)
    (h : (l.minus r).outcome = .ok e) :
    CommonDims l r e.dims ∧ e.Means P fun i j =>
      l.repeated l.meaningAt i j - r.repeated r.meaningAt i j := by
  obtain ⟨hcombines, hin⟩ := combines_of_minus hl hr h
  refine means_of_combines hl hr hcombines hin fun {a b s} ha hb hs => ?_
  obtain ⟨c, hc, hs'⟩ := Option.bind_eq_some_iff.mp hs
  cases hs'
  rw [Scalar.meaning_plus, Scalar.meaning_negated hb hc, sub_eq_add_neg]

theorem TotalsWithin.minus {l r e : Expression α} (hl : l.FactorsIn P) (hr : r.FactorsIn P)
    (h : (l.minus r).outcome = .ok e) {n : ℕ} (hln : l.TotalsWithin n) (hrn : r.TotalsWithin n) :
    e.TotalsWithin n := by
  obtain ⟨hcombines, -⟩ := combines_of_minus hl hr h
  refine totalsWithin_of_combines hcombines fun {a b s} ha hb hs => ?_
  obtain ⟨c, hc, hs'⟩ := Option.bind_eq_some_iff.mp hs
  cases hs'
  exact (hln a ha).plus ((hrn b hb).negated (hr.each b hb) hc)

theorem writes_of_minus {l r e : Expression α} (hl : l.FactorsIn P) (hr : r.FactorsIn P)
    (h : (l.minus r).outcome = .ok e) (hlt : l.TotalsFit) (hrt : r.TotalsFit) :
    e.Writes P fun i j => l.repeated l.exactAt i j - r.repeated r.exactAt i j := by
  refine (means_of_minus hl hr h).2.writes (hlt.minus hl hr h hrt)
    (fun i j => (hlt.repeated i j).sub (hrt.repeated i j)) fun i j => ?_
  rw [map_sub, inWords_repeated, inWords_repeated]

/-! ## Products -/

theorem means_of_scale {l r e : Expression α} (hl : l.FactorsIn P) (hr : r.FactorsIn P)
    {op : Operation}
    (h : (Grid.combine op Scalar.times (.ofExpression l) (.ofExpression r)).outcome = .ok e) :
    CommonDims l r e.dims ∧ e.Means P fun i j =>
      l.repeated l.meaningAt i j * r.repeated r.meaningAt i j := by
  obtain ⟨hcombines, hin⟩ := (ensures_combine_times hl hr).value e h
  exact means_of_combines hl hr hcombines hin fun ha hb hs => Scalar.meaning_times ha hb hs

theorem TotalsFitWith.scale {l r e : Expression α} (hlr : l.TotalsFitWith r) (hl : l.FactorsIn P)
    (hr : r.FactorsIn P) {op : Operation}
    (h : (Grid.combine op Scalar.times (.ofExpression l) (.ofExpression r)).outcome = .ok e) :
    e.TotalsFit := by
  obtain ⟨hcombines, -⟩ := (ensures_combine_times hl hr).value e h
  exact totalsWithin_of_combines hcombines fun {a b s} ha hb hs =>
    (hlr a ha b hb).times (hl.each a ha) (hr.each b hb) hs

/-- A product with a scalar is written as the product where the totals together fit in a word. -/
theorem writes_of_scale {l r e : Expression α} (hl : l.FactorsIn P) (hr : r.FactorsIn P)
    {op : Operation}
    (h : (Grid.combine op Scalar.times (.ofExpression l) (.ofExpression r)).outcome = .ok e)
    (hlr : l.TotalsFitWith r) :
    e.Writes P fun i j => l.repeated l.exactAt i j * r.repeated r.exactAt i j := by
  refine (means_of_scale hl hr h).2.writes (hlr.scale hl hr h) (fun i j => ?_) fun i j => ?_
  · unfold repeated
    split <;> split <;> exact hlr.exponentsWithin _ _ _ _
  · rw [map_mul, inWords_repeated, inWords_repeated]

variable [BEq α] [LawfulBEq α]

theorem meaning_of_productAt? {l r : Expression α} (hl : l.FactorsIn P) (hr : r.FactorsIn P)
    {i j : Nat} {s : Scalar α}
    (h : productAt? l.elements.toArray r.elements.toArray l.dims.cols r.dims.cols i j = some s) :
    s.meaning = ∑ k ∈ Finset.range l.dims.cols, l.meaningAt i k * r.meaningAt k j := by
  obtain ⟨ts, hts, rfl⟩ := productAt?_eq_some.mp h
  simp only [List.getElem?_toArray] at hts
  -- by induction on the places along the row and the column
  have hsum : ∀ {ks : List Nat} {us : List (Scalar α)},
      List.Forall₂ (fun k t => ∃ a b, l.elements[i * l.dims.cols + k]? = some a ∧
        r.elements[k * r.dims.cols + j]? = some b ∧ a.times b = some t) ks us →
      (us.map Scalar.meaning).sum = (ks.map fun k => l.meaningAt i k * r.meaningAt k j).sum := by
    intro ks us hus
    induction hus with
    | nil => rfl
    | @cons k u ks us hu _ ih =>
      obtain ⟨a, b, ha, hb, hu⟩ := hu
      have hain := hl.each a (List.mem_of_getElem? ha)
      have hbin := hr.each b (List.mem_of_getElem? hb)
      rw [List.map_cons, List.map_cons, List.sum_cons, List.sum_cons, ih,
        Scalar.meaning_times hain hbin hu, meaningAt, meaningAt, ha, hb]
      rfl
  rw [Scalar.meaning_simplified, Scalar.meaning_sum, hsum hts]
  rfl

omit [LawfulBEq α] in
/-- The entries of a matrix product are the products of the rows and columns, as terms. -/
theorem entries_of_matrixProduct {l r e : Expression α} (hl : l.FactorsIn P) (hr : r.FactorsIn P)
    (h : (matrixProduct (.ofExpression l) (.ofExpression r)).outcome = .ok e)
    {i j : Nat} (hi : i < e.dims.rows) (hj : j < e.dims.cols) :
    ∃ s t, productAt? l.elements.toArray r.elements.toArray l.dims.cols r.dims.cols i j = some s ∧
      e.elements[i * e.dims.cols + j]? = some t ∧ t.toMonomials = s.toMonomials := by
  obtain ⟨hdims, -⟩ := (ensures_matrixProduct hl hr).value e h
  have hinner : (Grid.ofExpression l).shape.cols = (Grid.ofExpression r).shape.rows := hdims.1
  rw [matrixProduct, if_pos hinner, Traced.outcome_quiet, bind_eq_ok] at h
  obtain ⟨es, hes, he⟩ := h
  rw [Attempt.read_eq_ok] at hes
  rw [Attempt.checked_eq_ok] at he
  obtain ⟨hlen, hentry⟩ := entries_of_productElements? hes
  have htyped := Grid.isTyped_of_toExpression (fits_productForm hlen) he
  rw [hdims.2] at hi hj ⊢
  obtain ⟨s, hprod, -⟩ := exists_productAt? hl hr hdims.1 hi hj
  obtain ⟨t, ht, hterms⟩ := htyped.exists_getElem? ((hentry i hi j hj).trans hprod)
  exact ⟨s, t, hprod, ht, hterms⟩

theorem means_of_matrixProduct {l r e : Expression α} (hl : l.FactorsIn P) (hr : r.FactorsIn P)
    (h : (matrixProduct (.ofExpression l) (.ofExpression r)).outcome = .ok e) :
    (l.dims.cols = r.dims.rows ∧ e.dims = ⟨l.dims.rows, r.dims.cols⟩) ∧ e.Means P fun i j =>
      ∑ k ∈ Finset.range l.dims.cols, l.meaningAt i k * r.meaningAt k j := by
  obtain ⟨hdims, hin⟩ := (ensures_matrixProduct hl hr).value e h
  refine ⟨hdims, hin, fun i hi j hj => ?_⟩
  obtain ⟨s, t, hprod, ht, hterms⟩ := entries_of_matrixProduct hl hr h hi hj
  rw [← meaning_of_productAt? hl hr hprod, meaningAt, ht]
  show termsMeaning t.toMonomials = termsMeaning s.toMonomials
  rw [hterms]

omit [LawfulBEq α] in
/-- The entries of a matrix product are simplified, so they write no variable twice in a term. -/
theorem totalsFit_matrixProduct {l r e : Expression α} (hl : l.FactorsIn P) (hr : r.FactorsIn P)
    (h : (matrixProduct (.ofExpression l) (.ofExpression r)).outcome = .ok e) : e.TotalsFit := by
  intro t ht
  obtain ⟨i, hi, j, hj, hplace⟩ :=
    ((ensures_matrixProduct hl hr).value e h).2.exists_position ht
  obtain ⟨s, t', hprod, ht', hterms⟩ := entries_of_matrixProduct hl hr h hi hj
  obtain rfl : t = t' := Option.some.inj (hplace.symm.trans ht')
  obtain ⟨ts, -, rfl⟩ := productAt?_eq_some.mp hprod
  exact (Scalar.totalsFit_simplified (Scalar.sum ts)).congr hterms

theorem writes_of_matrixProduct {l r e : Expression α} (hl : l.FactorsIn P) (hr : r.FactorsIn P)
    (h : (matrixProduct (.ofExpression l) (.ofExpression r)).outcome = .ok e)
    (hlr : l.TotalsFitWith r) :
    e.Writes P fun i j => ∑ k ∈ Finset.range l.dims.cols, l.exactAt i k * r.exactAt k j := by
  obtain ⟨-, hmeans⟩ := means_of_matrixProduct hl hr h
  refine hmeans.writes (totalsFit_matrixProduct hl hr h) (fun i j => ?_) fun i j => ?_
  · exact .finsetSum fun p _ => hlr.exponentsWithin i p p j
  · rw [map_sum]
    refine Finset.sum_congr rfl fun p _ => ?_
    rw [map_mul, l.inWords_exactAt, r.inWords_exactAt]

/-! ## Values -/

/-- **The operators compute what they say.** Let two expressions have values at a point, and let no
total exponent in them be above the largest power. Where there is a sum, a difference or a product
of them, and none of its exponents is above the largest power, it has a value there too: of a sum or
a difference with the sums or differences of the entries, a scalar being repeated over the other
operand; of a product with the products of the entries if one operand is a scalar, and else with the
sums of the products along the rows of the left and the columns of the right operand. -/
theorem operators_evaluate {l r lv rv : Expression α} {p : Point α} (hl : l.evaluate p = .ok lv)
    (hr : r.evaluate p = .ok rv) (hlt : l.TotalsWithin maxPower) (hrt : r.TotalsWithin maxPower) :
    ∃ A B : Nat → Nat → α, l.HasValues p A ∧ r.HasValues p B ∧
      (∀ e, (l.plus r).outcome = .ok e → e.PowersWithin →
        CommonDims l r e.dims ∧
          e.HasValues p fun i j => l.repeated A i j + r.repeated B i j) ∧
      (∀ e, (l.minus r).outcome = .ok e → e.PowersWithin →
        CommonDims l r e.dims ∧
          e.HasValues p fun i j => l.repeated A i j - r.repeated B i j) ∧
      (∀ e, (l.multiply r).outcome = .ok e → e.PowersWithin →
        if l.isScalar || r.isScalar then
          CommonDims l r e.dims ∧
            e.HasValues p fun i j => l.repeated A i j * r.repeated B i j
        else
          (l.dims.cols = r.dims.rows ∧ e.dims = ⟨l.dims.rows, r.dims.cols⟩) ∧
            e.HasValues p fun i j => ∑ k ∈ Finset.range l.dims.cols, A i k * B k j) := by
  have hlp := hlt.powersWithin
  have hrp := hrt.powersWithin
  have hlin := ((evaluate_eq_ok hlp).mp hl).1
  have hrin := ((evaluate_eq_ok hrp).mp hr).1
  -- two totals up to the largest power still fit in a word together
  have hlr : l.TotalsFitWith r := hlt.totalsFitWith hrt (by decide)
  have hlfit : l.TotalsFit := hlt.mono maxPower_le_largestWord
  have hrfit : r.TotalsFit := hrt.mono maxPower_le_largestWord
  refine ⟨_, _, hasValues hlp hlin, hasValues hrp hrin, fun e he hep => ?_, fun e he hep => ?_,
    fun e he hep => ?_⟩
  · refine ⟨(means_of_plus hlin hrin he).1,
      (writes_of_plus hlin hrin he hlfit hrfit).hasValues hep fun i j => ?_⟩
    rw [map_add, eval_repeated, eval_repeated]
  · refine ⟨(means_of_minus hlin hrin he).1,
      (writes_of_minus hlin hrin he hlfit hrfit).hasValues hep fun i j => ?_⟩
    rw [map_sub, eval_repeated, eval_repeated]
  · rw [multiply, Traced.outcome_bind, unit_bind_eq_ok] at he
    obtain ⟨-, he⟩ := he
    split at he
    next hscalar =>
      rw [if_pos hscalar]
      refine ⟨(means_of_scale hlin hrin he).1,
        (writes_of_scale hlin hrin he hlr).hasValues hep fun i j => ?_⟩
      rw [map_mul, eval_repeated, eval_repeated]
    next hscalar =>
      rw [if_neg hscalar]
      refine ⟨(means_of_matrixProduct hlin hrin he).1,
        (writes_of_matrixProduct hlin hrin he hlr).hasValues hep fun i j => ?_⟩
      rw [map_sum]
      exact Finset.sum_congr rfl fun k _ => map_mul _ _ _

end Ring

/-- A row of `2 x x` and `3 y ^ 0` times a column of `x` and `y`. -/
theorem operators_evaluate_row_column :
    let x : Variable ℤ := .numbered 0
    let y : Variable ℤ := .numbered 1
    let l : Expression ℤ := .matrix .monomial ⟨1, 2, [⟨2, [x, x], [1, 1]⟩, ⟨3, [y], [0]⟩]⟩
    let r : Expression ℤ := .vector .variable ⟨[x, y]⟩
    let e : Expression ℤ := .scalar (.polynomial ⟨[⟨2, [x], [3]⟩, ⟨3, [y], [1]⟩]⟩)
    let p : Point ℤ := .ofList [(x, 2), (y, 5)]
    (l.multiply r).outcome = .ok e ∧ ∃ A B, l.HasValues p A ∧ r.HasValues p B ∧
      e.HasValues p fun i j => ∑ k ∈ Finset.range 2, A i k * B k j := by
  intro x y l r e p
  have hl : l.evaluate p = .ok (.matrix .constant ⟨1, 2, [8, 3]⟩) := by cbv
  have hr : r.evaluate p = .ok (.vector .constant ⟨[2, 5]⟩) := by cbv
  have he : (l.multiply r).outcome = .ok e := rfl
  obtain ⟨A, B, hA, hB, -, -, hproduct⟩ := operators_evaluate hl hr (by decide) (by decide)
  exact ⟨he, A, B, hA, hB, (hproduct e he (by decide)).2⟩

end Expression

end DecisionAlgebra
