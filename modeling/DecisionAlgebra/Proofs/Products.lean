import DecisionAlgebra.Proofs.Derivative
import DecisionAlgebra.Proofs.Operators
import DecisionAlgebra.Proofs.Refusals

/-!
# Laws of products, transposition and differentiation

A product of one entry becomes a scalar and one of a single column a vector, and a product with a
scalar is computed by scaling instead of along rows and columns. None of this is seen in the
meanings: whenever the columns of the left operand are as many as the rows of the right one, the
entry in row `i` and column `j` means the sum of the products along row `i` and column `j`, whatever
the forms of the operands are. So products associate, transposition reverses them, and they are
differentiated one operand at a time.
-/

namespace DecisionAlgebra

open MvPolynomial (pderiv)

variable {α : Type} {P Q : VariableId → Prop}

namespace Expression

/-! ## Totals that fit together -/

/-- There are terms on both sides, so totals that fit together fit by themselves. -/
theorem TotalsFitWith.left [One α] {l r : Expression α} (h : l.TotalsFitWith r)
    (hr : r.FactorsIn P) : l.TotalsFit := by
  intro s hs m hm
  obtain ⟨t, ht⟩ := List.exists_mem_of_ne_nil _ hr.ne_nil
  obtain ⟨k, hk⟩ := List.exists_mem_of_ne_nil _ (hr.each t ht).ne_nil
  exact Monomial.totalsWithin_iff.mpr fun id => (Nat.le_add_right _ _).trans
    (Monomial.totalsFitWith_iff.mp (h s hs t ht m hm k hk) id)

theorem TotalsFitWith.right [One α] {l r : Expression α} (h : l.TotalsFitWith r)
    (hl : l.FactorsIn P) : r.TotalsFit := by
  intro t ht k hk
  obtain ⟨s, hs⟩ := List.exists_mem_of_ne_nil _ hl.ne_nil
  obtain ⟨m, hm⟩ := List.exists_mem_of_ne_nil _ (hl.each s hs).ne_nil
  exact Monomial.totalsWithin_iff.mpr fun id => (Nat.le_add_left _ _).trans
    (Monomial.totalsFitWith_iff.mp (h s hs t ht m hm k hk) id)

section Ring

variable [CommRing α]

/-! ## Expressions that mean the same -/

/-- The same shape, and at every position the terms of an exact exponent map have the same sum. -/
structure Alike (d e : Expression α) : Prop where
  dims_eq : d.dims = e.dims
  coefficientAt_eq : ∀ i < e.dims.rows, ∀ j < e.dims.cols, ∃ a b,
    d.at? i j = .ok a ∧ e.at? i j = .ok b ∧ ∀ s, a.coefficientAt s = b.coefficientAt s

/-- The same shape, and at every position the same meaning, with words as exponents. -/
structure SameMeaning (d e : Expression α) : Prop where
  dims_eq : d.dims = e.dims
  meaningAt_eq : ∀ i < e.dims.rows, ∀ j < e.dims.cols, d.meaningAt i j = e.meaningAt i j

theorem meaningAt_of_at? {e : Expression α} {i j : Nat} {s : Scalar α} (h : e.at? i j = .ok s) :
    e.meaningAt i j = s.meaning := by
  rw [meaningAt, (at?_eq_ok.mp h).2.2]
  rfl

theorem exactAt_of_at? {e : Expression α} {i j : Nat} {s : Scalar α} (h : e.at? i j = .ok s) :
    e.exactAt i j = s.exactMeaning := by
  rw [exactAt, (at?_eq_ok.mp h).2.2]
  rfl

theorem Means.check_eq_ok {e : Expression α} {M : Nat → Nat → WordPolynomial α}
    (h : e.Means (fun id => id.isDefined = true) M) : e.check = .ok () :=
  Expression.check_eq_ok.mpr h.factorsIn

theorem Writes.check_eq_ok {e : Expression α} {T : Nat → Nat → MvPolynomial VariableId α}
    (h : e.Writes (fun id => id.isDefined = true) T) : e.check = .ok () :=
  Expression.check_eq_ok.mpr h.factorsIn

/-- What is written the same is alike. -/
theorem Writes.alike {d e : Expression α} {S T : Nat → Nat → MvPolynomial VariableId α}
    (hd : d.Writes P S) (he : e.Writes Q T) (hdims : d.dims = e.dims)
    (h : ∀ i < e.dims.rows, ∀ j < e.dims.cols, S i j = T i j) : d.Alike e := by
  refine ⟨hdims, fun i hi j hj => ?_⟩
  have hi' : i < d.dims.rows := hdims ▸ hi
  have hj' : j < d.dims.cols := hdims ▸ hj
  obtain ⟨a, ha⟩ := exists_at? hd.factorsIn.length_eq hi' hj'
  obtain ⟨b, hb⟩ := exists_at? he.factorsIn.length_eq hi hj
  refine ⟨a, b, ha, hb, fun s => ?_⟩
  rw [Scalar.coefficientAt_eq, Scalar.coefficientAt_eq, ← exactAt_of_at? ha, ← exactAt_of_at? hb,
    hd.exactAt_eq i hi' j hj', he.exactAt_eq i hi j hj, h i hi j hj]

/-- Where the totals fit in a word, what means the same is alike. -/
theorem SameMeaning.alike {d e : Expression α} (h : d.SameMeaning e) (hd : d.FactorsIn P)
    (he : e.FactorsIn Q) (hdfit : d.TotalsFit) (hefit : e.TotalsFit) : d.Alike e := by
  have hwrites : d.Writes P d.exactAt := ⟨hd, fun _ _ _ _ => rfl⟩
  refine hwrites.alike (T := e.exactAt) ⟨he, fun _ _ _ _ => rfl⟩ h.dims_eq fun i hi j hj => ?_
  refine eq_of_inWords_eq (hdfit.exponentsWithin i j) (hefit.exponentsWithin i j) ?_
  rw [inWords_exactAt, inWords_exactAt, h.meaningAt_eq i hi j hj]

theorem Means.sameMeaning {d e : Expression α} {M N : Nat → Nat → WordPolynomial α}
    (hd : d.Means P M) (he : e.Means Q N) (hdims : d.dims = e.dims)
    (h : ∀ i < e.dims.rows, ∀ j < e.dims.cols, M i j = N i j) : d.SameMeaning e := by
  refine ⟨hdims, fun i hi j hj => ?_⟩
  rw [hd.meaning_eq i (hdims ▸ hi) j (hdims ▸ hj), he.meaning_eq i hi j hj, h i hi j hj]

/-! ## Products -/

section Scalars

omit [CommRing α]

variable {l r : Expression α} {i j : Nat}

/-- A scalar has the shape of a matrix of one entry, so scaling gives the shape of the matrix
product. -/
theorem CommonDims.dims_eq {dims : Shape} (h : CommonDims l r dims)
    (hscalar : l.form = .scalar ∨ r.form = .scalar) (hinner : l.dims.cols = r.dims.rows) :
    dims = ⟨l.dims.rows, r.dims.cols⟩ := by
  by_cases hl : l.form = .scalar
  · have hldims : l.dims = .scalar := dims_of_scalar hl
    by_cases hr : r.form = .scalar
    · rw [h.scalar (isScalar_iff.mpr hl) (isScalar_iff.mpr hr), hldims, dims_of_scalar hr]
    · have hrows : r.dims.rows = 1 := by rw [← hinner, hldims]; rfl
      have hrdims : r.dims = dims := h.right.resolve_left fun hr' => hr (isScalar_iff.mp hr')
      rw [hldims, ← hrdims]
      show r.dims = ⟨1, r.dims.cols⟩
      rw [← hrows]
  · have hrdims : r.dims = .scalar := dims_of_scalar (hscalar.resolve_left hl)
    have hcols : l.dims.cols = 1 := by rw [hinner, hrdims]; rfl
    have hldims : l.dims = dims := h.left.resolve_left fun hl' => hl (isScalar_iff.mp hl')
    rw [hrdims, ← hldims]
    show l.dims = ⟨l.dims.rows, 1⟩
    rw [← hcols]

/-- Within the shape of an expression nothing is repeated. -/
theorem repeated_of_lt {β : Type} {e : Expression α} (hi : i < e.dims.rows) (hj : j < e.dims.cols)
    (A : Nat → Nat → β) : e.repeated A i j = A i j := by
  unfold repeated
  split
  next h =>
    rw [dims_of_scalar (isScalar_iff.mp h)] at hi hj
    rw [Nat.lt_one_iff.mp hi, Nat.lt_one_iff.mp hj]
  next => rfl

/-- Where one operand is a scalar, the left one is repeated along the only column there is, or over
the only row. -/
theorem repeated_left {β : Type} (hscalar : l.form = .scalar ∨ r.form = .scalar)
    (hi : i < l.dims.rows) (hj : j < r.dims.cols) (A : Nat → Nat → β) :
    l.repeated A i j = A i 0 := by
  unfold repeated
  split
  next hl =>
    rw [dims_of_scalar (isScalar_iff.mp hl)] at hi
    rw [Nat.lt_one_iff.mp hi]
  next hl =>
    rw [dims_of_scalar (hscalar.resolve_left fun hl' => hl (isScalar_iff.mpr hl'))] at hj
    rw [Nat.lt_one_iff.mp hj]

@[inherit_doc repeated_left]
theorem repeated_right {β : Type} (hscalar : l.form = .scalar ∨ r.form = .scalar)
    (hi : i < l.dims.rows) (hj : j < r.dims.cols) (B : Nat → Nat → β) :
    r.repeated B i j = B 0 j := by
  unfold repeated
  split
  next hr =>
    rw [dims_of_scalar (isScalar_iff.mp hr)] at hj
    rw [Nat.lt_one_iff.mp hj]
  next hr =>
    rw [dims_of_scalar (hscalar.resolve_right fun hr' => hr (isScalar_iff.mpr hr'))] at hi
    rw [Nat.lt_one_iff.mp hi]

end Scalars

variable [BEq α] [LawfulBEq α]

/-- **A product of valid operands that fit exists and means the matrix product**, also where an
operand or the product is a scalar. -/
theorem exists_multiply {l r : Expression α} (hl : l.check = .ok ()) (hr : r.check = .ok ())
    (hinner : l.dims.cols = r.dims.rows) :
    ∃ e, (l.multiply r).outcome = .ok e ∧ e.dims = ⟨l.dims.rows, r.dims.cols⟩ ∧
      e.Means (fun id => id.isDefined = true) fun i j =>
        ∑ k ∈ Finset.range l.dims.cols, l.meaningAt i k * r.meaningAt k j := by
  have hdecided := decidedBy_multiply l r
  rw [objection?_eq_none hl hr (.inr (.inr hinner))] at hdecided
  obtain ⟨e, he⟩ := hdecided
  refine ⟨e, he, ?_⟩
  have hlin := check_eq_ok.mp hl
  have hrin := check_eq_ok.mp hr
  rw [multiply, Traced.outcome_bind, unit_bind_eq_ok] at he
  obtain ⟨-, he⟩ := he
  split at he
  next hscalar =>
    rw [Bool.or_eq_true, isScalar_iff, isScalar_iff] at hscalar
    obtain ⟨hcommon, hmeans⟩ := means_of_scale hlin hrin he
    have hdims := hcommon.dims_eq hscalar hinner
    refine ⟨hdims, hmeans.factorsIn, fun i hi j hj => ?_⟩
    have hone : l.dims.cols = 1 := by
      rcases hscalar with h | h
      · rw [dims_of_scalar h]
        rfl
      · rw [hinner, dims_of_scalar h]
        rfl
    rw [hmeans.meaning_eq i hi j hj]
    rw [hdims] at hi hj
    rw [repeated_left hscalar hi hj, repeated_right hscalar hi hj, hone, Finset.sum_range_one]
  next =>
    obtain ⟨⟨-, hdims⟩, hmeans⟩ := means_of_matrixProduct hlin hrin he
    exact ⟨hdims, hmeans⟩

omit [LawfulBEq α] in
/-- A product of two operands that are not scalars is simplified, so its totals fit in a word. -/
theorem totalsFit_multiply {l r e : Expression α} (hl : l.check = .ok ()) (hr : r.check = .ok ())
    (hls : l.form ≠ .scalar) (hrs : r.form ≠ .scalar) (h : (l.multiply r).outcome = .ok e) :
    e.TotalsFit := by
  have hscalar : ¬ (l.isScalar || r.isScalar) = true := by
    rw [Bool.or_eq_true, isScalar_iff, isScalar_iff]
    exact fun h => h.elim hls hrs
  rw [multiply, Traced.outcome_bind, unit_bind_eq_ok, if_neg hscalar] at h
  exact totalsFit_matrixProduct (check_eq_ok.mp hl) (check_eq_ok.mp hr) h.2

omit [LawfulBEq α] in
/-- The totals of a product fit in a word where those of the operands together do. -/
theorem TotalsFitWith.multiply {l r e : Expression α} (hlr : l.TotalsFitWith r)
    (hl : l.FactorsIn P) (hr : r.FactorsIn P) (h : (l.multiply r).outcome = .ok e) :
    e.TotalsFit := by
  rw [Expression.multiply, Traced.outcome_bind, unit_bind_eq_ok] at h
  obtain ⟨-, h⟩ := h
  split at h
  next => exact hlr.scale hl hr h
  next => exact totalsFit_matrixProduct hl hr h

/-- Where totals together fit in a word, the product is written as the matrix product. -/
theorem exists_writes_multiply {l r : Expression α} (hl : l.check = .ok ()) (hr : r.check = .ok ())
    (hinner : l.dims.cols = r.dims.rows) (hlr : l.TotalsFitWith r) :
    ∃ e, (l.multiply r).outcome = .ok e ∧ e.dims = ⟨l.dims.rows, r.dims.cols⟩ ∧ e.TotalsFit ∧
      e.Writes (fun id => id.isDefined = true) fun i j =>
        ∑ k ∈ Finset.range l.dims.cols, l.exactAt i k * r.exactAt k j := by
  obtain ⟨e, he, hdims, hmeans⟩ := exists_multiply hl hr hinner
  have hfit : e.TotalsFit := hlr.multiply (check_eq_ok.mp hl) (check_eq_ok.mp hr) he
  refine ⟨e, he, hdims, hfit, hmeans.writes hfit (fun i j => ?_) fun i j => ?_⟩
  · exact .finsetSum fun k _ => hlr.exponentsWithin i k k j
  · rw [map_sum]
    refine Finset.sum_congr rfl fun k _ => ?_
    rw [map_mul, l.inWords_exactAt, r.inWords_exactAt]

omit [BEq α] [LawfulBEq α] in
/-- The entry of the transposed expression is that with row and column exchanged. -/
theorem meaningAt_transposed {e t : Expression α} (h : e.transposed = some t) {i j : Nat}
    (hi : i < e.dims.rows) (hj : j < e.dims.cols) : t.meaningAt j i = e.meaningAt i j := by
  rw [meaningAt, meaningAt, getElem?_of_transposed h hi hj]

omit [BEq α] [LawfulBEq α] in
theorem exists_transpose {e : Expression α} (he : e.check = .ok ()) :
    ∃ t, e.transpose.outcome = .ok t ∧ e.transposed = some t ∧ t.dims = e.dims.transposed ∧
      t.Means (fun id => id.isDefined = true) fun i j => e.meaningAt j i := by
  obtain ⟨t, ht, hdims, hin⟩ := exists_transposed (check_eq_ok.mp he)
  refine ⟨t, ?_, ht, hdims, hin, fun i hi j hj => ?_⟩
  · rw [transpose, Traced.outcome_bind, unit_bind_eq_ok, checkOperand_eq_ok]
    exact ⟨he, Attempt.read_eq_ok.mpr ht⟩
  · rw [hdims] at hi hj
    exact meaningAt_transposed ht hj hi

omit [CommRing α] [BEq α] [LawfulBEq α] in
/-- Only a scalar is transposed to a scalar. -/
theorem form_of_transposed {e t : Expression α} (h : e.transposed = some t)
    (he : e.form ≠ .scalar) : t.form ≠ .scalar := by
  cases e with
  | scalar s => exact absurd rfl he
  | vector k c =>
    obtain rfl : .matrix k c.transposed = t := Option.some.inj h
    exact nofun
  | matrix k m =>
    obtain ⟨n, -, rfl⟩ := Option.map_eq_some_iff.mp h
    exact nofun

omit [BEq α] [LawfulBEq α] in
/-- Transposition moves the elements, so their totals stay as they are. -/
theorem TotalsWithin.transposed {n : ℕ} {e t : Expression α} (hn : e.TotalsWithin n)
    (he : e.elements.length = e.dims.size) (h : e.transposed = some t) : t.TotalsWithin n :=
  fun s hs => hn s ((mem_elements_of_transposed he h).mp hs)

omit [BEq α] [LawfulBEq α] in
/-- A sum of valid operands of one shape exists and means the sum of the entries. -/
theorem exists_plus {l r : Expression α} (hl : l.check = .ok ()) (hr : r.check = .ok ())
    (hdims : l.dims = r.dims) :
    ∃ e, (l.plus r).outcome = .ok e ∧ e.dims = l.dims ∧
      e.Means (fun id => id.isDefined = true) fun i j => l.meaningAt i j + r.meaningAt i j := by
  have hdecided := decidedBy_plus l r
  rw [objection?_eq_none hl hr (.inr (.inr hdims))] at hdecided
  obtain ⟨e, he⟩ := hdecided
  obtain ⟨hcommon, hmeans⟩ := means_of_plus (check_eq_ok.mp hl) (check_eq_ok.mp hr) he
  have hedims : e.dims = l.dims := by
    by_cases hls : l.isScalar = true
    · have hldims : l.dims = .scalar := dims_of_scalar (isScalar_iff.mp hls)
      by_cases hrs : r.isScalar = true
      · exact (hcommon.scalar hls hrs).trans hldims.symm
      · exact (hcommon.right.resolve_left hrs).symm.trans hdims.symm
    · exact (hcommon.left.resolve_left hls).symm
  refine ⟨e, he, hedims, hmeans.factorsIn, fun i hi j hj => ?_⟩
  rw [hmeans.meaning_eq i hi j hj]
  rw [hedims] at hi hj
  rw [repeated_of_lt hi hj, repeated_of_lt (hdims ▸ hi) (hdims ▸ hj)]

omit [BEq α] [LawfulBEq α] in
/-- The sum of valid operands of one shape whose totals fit in a word is written as the sum of the
entries. -/
theorem exists_writes_plus {l r : Expression α} (hl : l.check = .ok ()) (hr : r.check = .ok ())
    (hdims : l.dims = r.dims) (hlfit : l.TotalsFit) (hrfit : r.TotalsFit) :
    ∃ e, (l.plus r).outcome = .ok e ∧ e.dims = l.dims ∧
      e.Writes (fun id => id.isDefined = true) fun i j => l.exactAt i j + r.exactAt i j := by
  obtain ⟨e, he, hedims, hmeans⟩ := exists_plus hl hr hdims
  have hfit : e.TotalsFit := hlfit.plus (check_eq_ok.mp hl) (check_eq_ok.mp hr) he hrfit
  refine ⟨e, he, hedims, hmeans.writes hfit (fun i j => ?_) fun i j => ?_⟩
  · exact (hlfit.exponentsWithin i j).add (hrfit.exponentsWithin i j)
  · rw [map_add, l.inWords_exactAt, r.inWords_exactAt]

omit [BEq α] [LawfulBEq α] in
/-- The derivative is written as the partial derivative of every entry, and no total in it is
larger. -/
theorem exists_writes_derivativeBy {e : Expression α} {v : Variable α} (he : e.check = .ok ())
    (hv : v.id.isDefined = true) (hfit : e.TotalsFit) :
    ∃ d, (e.derivativeBy v).outcome = .ok d ∧ d.dims = e.dims ∧ d.Below e ∧
      d.Writes (fun id => id.isDefined = true) fun i j => pderiv v.id (e.exactAt i j) := by
  have hin := check_eq_ok.mp he
  obtain ⟨d, hd, htyped⟩ := exists_derivativeBy he hv
  have hdims : d.dims = e.dims := htyped.dims_eq
  have hfits := (Grid.fits_ofExpression hin.length_eq).map (·.derivative v)
  have hne : e.elements.map (·.derivative v) ≠ [] := fun hnil =>
    hin.ne_nil (List.map_eq_nil_iff.mp hnil)
  have hdin : d.FactorsIn fun id => id.isDefined = true := by
    refine htyped.factorsIn hfits hne fun t ht => ?_
    obtain ⟨s, hs, rfl⟩ := List.mem_map.mp ht
    exact (hin.each s hs).derivative v
  refine ⟨d, hd, hdims, fun t ht => ?_, hdin, fun i hi j hj => ?_⟩
  · obtain ⟨i, hi, j, hj, hplace⟩ := hdin.exists_position ht
    rw [hdims] at hi hj hplace
    obtain ⟨a, ha⟩ := exists_at? hin.length_eq hi hj
    obtain ⟨b, hb, hterms⟩ := htyped.exists_at?_map ha
    have hmem : a ∈ e.elements := List.mem_of_getElem? (at?_eq_ok.mp ha).2.2
    have hplace' := (at?_eq_ok.mp hb).2.2
    rw [hdims] at hplace'
    obtain rfl : t = b := Option.some.inj (hplace.symm.trans hplace')
    exact ⟨a, hmem, (Scalar.below_derivative (hin.each a hmem) v).congr hterms⟩
  · rw [hdims] at hi hj
    obtain ⟨a, ha⟩ := exists_at? hin.length_eq hi hj
    obtain ⟨b, hb, hterms⟩ := htyped.exists_at?_map ha
    have hmem : a ∈ e.elements := List.mem_of_getElem? (at?_eq_ok.mp ha).2.2
    rw [exactAt_of_at? hb, exactAt_of_at? ha, ← (hfit.of_mem hmem).exactMeaning_derivative,
      Scalar.exactMeaning, hterms]
    rfl

end Ring

end Expression

end DecisionAlgebra
