import DecisionAlgebra.Proofs.Linear.Coefficients
import DecisionAlgebra.Proofs.Products
import DecisionAlgebra.Proofs.Rows

/-!
# Conversions to and from dense matrices

A dense matrix keeps its numbers by columns and a matrix of constants by rows, so a conversion moves
nearly every number. What ties the two is `get`: the rows read off a dense matrix are the rows of
the matrix it is converted to, and a dense matrix is known from its shape and what `get` gives. So
each is the other converted, and no law of numbers is used for it. In a product with a diagonal
matrix, the sum along a row has one term left.
-/

namespace DecisionAlgebra

open MvPolynomial (C)

variable {α β : Type}

/-! ## Matrices -/

namespace DenseMatrix

theorem length_of_mem_toRows {d : DenseMatrix β} {r : List β} (hr : r ∈ d.toRows) :
    r.length = d.cols := by
  obtain ⟨i, -, rfl⟩ := List.mem_map.mp hr
  rw [List.length_map, List.length_finRange]

theorem length_toRows (d : DenseMatrix β) : d.toRows.length = d.rows := by
  rw [toRows, List.length_map, List.length_finRange]

/-- The rows read off a dense matrix are those of the matrix it is converted to. -/
theorem areRows_toRows (d : DenseMatrix β) : d.toMatrix.AreRows d.toRows :=
  ⟨d.length_toRows, fun _ => length_of_mem_toRows, rfl⟩

theorem length_entries_toMatrix (d : DenseMatrix β) :
    d.toMatrix.entries.length = d.rows * d.cols := by
  rw [← d.areRows_toRows.flatten_eq, length_flatten_of_length d.areRows_toRows.width,
    d.length_toRows]
  rfl

/-- A conversion leaves every number in its row and column. -/
theorem at?_toMatrix (d : DenseMatrix β) (i : Fin d.rows) (j : Fin d.cols) :
    d.toMatrix.at? i j = .ok (d.get i j) := by
  have hrow : d.toRows[i.val]? = some ((List.finRange d.cols).map (d.get i)) := by simp [toRows]
  refine d.areRows_toRows.at?_eq hrow ?_
  simp

/-- The number in row `i` and column `j` is stored at place `i` of column `j`. -/
theorem getElem?_entries (d : DenseMatrix β) (i : Fin d.rows) (j : Fin d.cols) :
    d.entries.toList[j.val * d.rows + i.val]? = some (d.get i j) := by
  rw [Array.getElem?_toList]
  exact Array.getElem?_eq_getElem _

/-- A dense matrix is known from the matrix it is converted to: the same numbers in the same rows
and columns are stored at the same places. -/
theorem toMatrix_injective : Function.Injective (toMatrix : DenseMatrix β → Matrix β) := by
  intro d u h
  have hrows : d.rows = u.rows := congrArg Matrix.rows h
  have hcols : d.cols = u.cols := congrArg Matrix.cols h
  have hentries : d.entries.toList = u.entries.toList := by
    have hd : d.entries.toList.length = d.cols * d.rows := d.size_entries.trans (Nat.mul_comm _ _)
    have hu : u.entries.toList.length = d.cols * d.rows := by
      rw [hrows, hcols]
      exact u.size_entries.trans (Nat.mul_comm _ _)
    refine eq_of_places hd hu fun j hj i hi => ?_
    have hget : d.get ⟨i, hi⟩ ⟨j, hj⟩ = u.get ⟨i, hrows ▸ hi⟩ ⟨j, hcols ▸ hj⟩ := by
      apply Except.ok.inj
      rw [← at?_toMatrix, ← at?_toMatrix, h]
    calc d.entries.toList[j * d.rows + i]?
        = some (d.get ⟨i, hi⟩ ⟨j, hj⟩) := d.getElem?_entries ⟨i, hi⟩ ⟨j, hj⟩
      _ = some (u.get ⟨i, hrows ▸ hi⟩ ⟨j, hcols ▸ hj⟩) := congrArg some hget
      _ = u.entries.toList[j * u.rows + i]? := (u.getElem?_entries _ _).symm
      _ = u.entries.toList[j * d.rows + i]? := by rw [hrows]
  cases d
  cases u
  exact (DenseMatrix.mk.injEq ..).mpr ⟨hrows, hcols, Array.toList_inj.mp hentries⟩

end DenseMatrix

/-- A matrix with all its entries is converted to a dense matrix and back without a change. -/
theorem Matrix.exists_toDense? {m : Matrix β} (hlen : m.entries.length = m.rows * m.cols) :
    ∃ d, m.toDense? = some d ∧ d.toMatrix = m := by
  obtain ⟨rs, hrs⟩ := exists_areRows hlen
  obtain ⟨d, hd, hrows, hcols, htoRows⟩ := DenseMatrix.exists_ofRowMajor? hrs.width
  refine ⟨d, ?_, ?_⟩
  · rw [toDense?, ← hrs.flatten_eq, ← hrs.length_eq, hd]
  · rw [DenseMatrix.toMatrix, DenseMatrix.rowMajor, hrows, hcols, htoRows, hrs.length_eq,
      hrs.flatten_eq]

/-- A dense matrix is converted to a matrix of constants and back without a change. -/
theorem DenseMatrix.toDense?_toMatrix (d : DenseMatrix β) : d.toMatrix.toDense? = some d := by
  obtain ⟨u, hu, hback⟩ := Matrix.exists_toDense? d.length_entries_toMatrix
  rw [hu, toMatrix_injective hback]

/-- The element of a matrix is its entry, taken as a scalar. -/
theorem Expression.at?_matrix {k : Kind} {m : Matrix (k.Entry α)} {i j : Nat} {x : k.Entry α}
    (h : m.at? i j = .ok x) : (Expression.matrix k m).at? i j = .ok (.ofEntry k x) := by
  obtain ⟨hi, hj, hplace⟩ := Matrix.at?_eq_ok.mp h
  refine at?_eq_ok.mpr ⟨hi, hj, ?_⟩
  show (m.entries.map (Scalar.ofEntry k))[i * m.cols + j]? = _
  rw [List.getElem?_map, hplace]
  rfl

/-- A dense matrix and a matrix of constants that have the same numbers: either is the other
converted, and every number is in the same row and column, also of the expression. The one stores
it by columns, the other by rows. -/
structure DenseMatrix.SameNumbers (d : DenseMatrix β) (m : Matrix β) : Prop where
  shape_eq : m.shape = ⟨d.rows, d.cols⟩
  toMatrix_eq : d.toMatrix = m
  toDense?_eq : m.toDense? = some d
  entry : ∀ (i : Fin d.rows) (j : Fin d.cols), m.at? i j = .ok (d.get i j)
  stored : ∀ i < d.rows, ∀ j < d.cols,
    d.entries.toList[j * d.rows + i]? = m.entries[i * d.cols + j]?
  toExpression_eq : d.toExpression = .matrix .constant m
  element : ∀ (i : Fin d.rows) (j : Fin d.cols),
    d.toExpression.at? i j = .ok (.constant (d.get i j))

theorem DenseMatrix.sameNumbers_toMatrix (d : DenseMatrix β) : d.SameNumbers d.toMatrix := by
  refine ⟨rfl, rfl, d.toDense?_toMatrix, d.at?_toMatrix, fun i hi j hj => ?_, rfl, fun i j => ?_⟩
  · obtain ⟨-, -, hplace⟩ := Matrix.at?_eq_ok.mp (d.at?_toMatrix ⟨i, hi⟩ ⟨j, hj⟩)
    exact (d.getElem?_entries ⟨i, hi⟩ ⟨j, hj⟩).trans hplace.symm
  · exact Expression.at?_matrix (k := .constant) (d.at?_toMatrix i j)

/-! ## Vectors -/

/-- A dense vector and a column of constants that have the same numbers: either is the other
converted, and every number is at the same index, also of the expression. -/
structure DenseVector.SameNumbers (v : DenseVector β) (c : Column β) : Prop where
  size_eq : c.size = v.entries.size
  toColumn_eq : v.toColumn = c
  toDense_eq : c.toDense = v
  entry : ∀ i (hi : i < v.entries.size), c.at? i = .ok v.entries[i]
  toExpression_eq : v.toExpression = .vector .constant c
  element : ∀ i (hi : i < v.entries.size), v.toExpression.at? i 0 = .ok (.constant v.entries[i])

theorem DenseVector.sameNumbers_toColumn (v : DenseVector β) : v.SameNumbers v.toColumn := by
  have hplace : ∀ i (hi : i < v.entries.size), v.toColumn.entries[i]? = some v.entries[i] := by
    intro i hi
    show v.entries.toList[i]? = _
    rw [Array.getElem?_toList]
    exact Array.getElem?_eq_getElem hi
  refine ⟨rfl, rfl, rfl, fun i hi => ?_, rfl, fun i hi => ?_⟩
  · rw [Column.at?, hplace i hi]
  · refine Expression.at?_eq_ok.mpr ⟨hi, Nat.one_pos, ?_⟩
    show (v.toColumn.entries.map (Scalar.ofEntry .constant))[i * 1 + 0]? = _
    rw [List.getElem?_map, Nat.mul_one, Nat.add_zero, hplace i hi]
    rfl

/-! ## Diagonal matrices -/

namespace DenseMatrix

theorem at?_diagonal [Zero β] {xs : List β} {i j : Nat} (hi : i < xs.length) (hj : j < xs.length) :
    (diagonal xs).toMatrix.at? i j = .ok (if i = j then xs[i] else 0) := by
  have hget := get_ofFn (fun i j : Fin xs.length => if i = j then xs[i] else 0) ⟨i, hi⟩ ⟨j, hj⟩
  simp only [Fin.mk.injEq, Fin.getElem_fin] at hget
  exact ((diagonal xs).at?_toMatrix ⟨i, hi⟩ ⟨j, hj⟩).trans (congrArg Except.ok hget)

section Ring

variable [CommRing α]

/-- The second expression has the shape of the first one, and in every row its coefficients, times
the number for the row: those of a map of words, and where the totals of the first one fit in a
word, those of an exact map. -/
structure RowsScaled (xs : List α) (e p : Expression α) : Prop where
  dims_eq : p.dims = e.dims
  entry : ∀ i (hi : i < xs.length), ∀ j < e.dims.cols, ∃ a b, e.at? i j = .ok a ∧
    p.at? i j = .ok b ∧ (∀ w, b.meaning.coeff w = xs[i] * a.meaning.coeff w) ∧
    (e.TotalsFit → ∀ s, b.coefficientAt s = xs[i] * a.coefficientAt s)

theorem expression_at?_diagonal {xs : List α} {i j : Nat} (hi : i < xs.length)
    (hj : j < xs.length) :
    (diagonal xs).toExpression.at? i j = .ok (.constant (if i = j then xs[i] else 0)) :=
  Expression.at?_matrix (k := .constant) (at?_diagonal hi hj)

theorem meaningAt_diagonal {xs : List α} {i j : Nat} (hi : i < xs.length) (hj : j < xs.length) :
    (diagonal xs).toExpression.meaningAt i j = if i = j then .single 0 xs[i] else 0 := by
  rw [Expression.meaningAt_of_at? (expression_at?_diagonal hi hj), Scalar.meaning_constant]
  split
  next => rfl
  next => exact AddMonoidAlgebra.single_zero 0

theorem exactAt_diagonal {xs : List α} {i j : Nat} (hi : i < xs.length) (hj : j < xs.length) :
    (diagonal xs).toExpression.exactAt i j = if i = j then C xs[i] else 0 := by
  rw [Expression.exactAt_of_at? (expression_at?_diagonal hi hj), Scalar.exactMeaning_constant]
  split
  next => rfl
  next => exact map_zero C

/-- A sum along a row of a diagonal matrix has one term that does not vanish. -/
theorem sum_diagonal {R : Type} [Semiring R] {n i : Nat} (hi : i < n) {c : R} {g : Nat → R}
    (hg : ∀ k < n, g k = if i = k then c else 0) (f : Nat → R) :
    ∑ k ∈ Finset.range n, g k * f k = c * f i := by
  rw [Finset.sum_eq_single i]
  · rw [hg i hi, if_pos rfl]
  · intro k hk hki
    rw [hg k (Finset.mem_range.mp hk), if_neg hki.symm, zero_mul]
  · intro hni
    exact absurd (Finset.mem_range.mpr hi) hni

/-- Numbers have no exponents. -/
theorem totalsWithin_diagonal (xs : List α) : (diagonal xs).toExpression.TotalsWithin 0 := by
  intro s hs
  obtain ⟨c, -, rfl⟩ := List.mem_map.mp hs
  exact Scalar.totalsWithin_constant c

theorem check_diagonal {xs : List α} (hxs : xs ≠ []) :
    (diagonal xs).toExpression.check = .ok () := by
  have hpos : 0 < xs.length := List.length_pos_iff.mpr hxs
  have hlen := (diagonal xs).length_entries_toMatrix
  have hne : (diagonal xs).toMatrix.entries ≠ [] := by
    rw [← List.length_pos_iff, hlen]
    exact Nat.mul_pos hpos hpos
  exact Matrix.check_eq_ok.mpr ⟨⟨hne, hpos, hpos⟩, hlen, fun _ _ => rfl⟩

variable [BEq α] [LawfulBEq α]

/-- A diagonal matrix scales the rows of what it is multiplied by. -/
theorem diagonal_multiply {xs : List α} {e : Expression α} (he : e.check = .ok ())
    (hrows : e.dims.rows = xs.length) :
    ∃ p, ((diagonal xs).toExpression.multiply e).outcome = .ok p ∧ RowsScaled xs e p := by
  have hin := Expression.check_eq_ok.mp he
  have hxs : xs ≠ [] :=
    List.length_pos_iff.mp (hrows ▸ Nat.pos_of_mul_pos_right (Expression.size_pos hin))
  have hdiagonal : (diagonal xs).toExpression.dims = ⟨xs.length, xs.length⟩ := rfl
  obtain ⟨p, hp, hdims, hmeans⟩ := Expression.exists_multiply (check_diagonal hxs) he hrows.symm
  have hdims : p.dims = e.dims := hdims.trans (by rw [hdiagonal, ← hrows])
  refine ⟨p, hp, hdims, fun i hi j hj => ?_⟩
  have hi' : i < e.dims.rows := hrows ▸ hi
  obtain ⟨a, ha⟩ := Expression.exists_at? hin.length_eq hi' hj
  obtain ⟨b, hb⟩ := Expression.exists_at? hmeans.factorsIn.length_eq (hdims ▸ hi') (hdims ▸ hj)
  refine ⟨a, b, ha, hb, fun w => ?_, fun hfit s => ?_⟩
  · have hmeaning : b.meaning = .single 0 xs[i] * a.meaning := by
      rw [← Expression.meaningAt_of_at? ha, ← Expression.meaningAt_of_at? hb,
        hmeans.meaning_eq i (hdims ▸ hi') j (hdims ▸ hj)]
      exact sum_diagonal hi (fun k hk => meaningAt_diagonal hi hk) fun k => e.meaningAt k j
    rw [hmeaning, AddMonoidAlgebra.coeff_single_zero_mul]
  · -- the numbers on the diagonal add nothing to the totals, so the product is exact
    have hfits : (diagonal xs).toExpression.TotalsFitWith e :=
      (totalsWithin_diagonal xs).totalsFitWith hfit (Nat.zero_add _).le
    obtain ⟨q, hq, -, -, hwrites⟩ :=
      Expression.exists_writes_multiply (check_diagonal hxs) he hrows.symm hfits
    obtain rfl : p = q := Except.ok.inj (hp.symm.trans hq)
    have hexact : b.exactMeaning = C xs[i] * a.exactMeaning := by
      rw [← Expression.exactAt_of_at? ha, ← Expression.exactAt_of_at? hb,
        hwrites.exactAt_eq i (hdims ▸ hi') j (hdims ▸ hj)]
      exact sum_diagonal hi (fun k hk => exactAt_diagonal hi hk) fun k => e.exactAt k j
    rw [Scalar.coefficientAt_eq, Scalar.coefficientAt_eq, hexact, MvPolynomial.coeff_C_mul]

end Ring

end DenseMatrix

end DecisionAlgebra
