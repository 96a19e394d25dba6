import DecisionAlgebra.Proofs.Validity

/-!
# Transposition

A matrix is transposed by reading its entries column after column. `Exchanged` says of two matrices
that each has the entries of the other with row and column exchanged, whatever their shape. It holds
in both directions, so transposing twice gives a matrix back. A vector becomes a matrix of one row,
and that a matrix of one column: the form is not restored, but the entries and their order are.
-/

namespace DecisionAlgebra

variable {α β : Type}

/-! ## Matrices -/

namespace Matrix

/-- The second matrix has the entries of the first with row and column exchanged. -/
structure Exchanged (m t : Matrix β) : Prop where
  rows_eq : t.rows = m.cols
  cols_eq : t.cols = m.rows
  length_eq : t.entries.length = t.rows * t.cols
  entry : ∀ i < m.rows, ∀ j < m.cols, t.entries[j * t.cols + i]? = m.entries[i * m.cols + j]?

variable {m t : Matrix β}

theorem Exchanged.symm (h : m.Exchanged t) (hlen : m.entries.length = m.rows * m.cols) :
    t.Exchanged m := by
  refine ⟨h.cols_eq.symm, h.rows_eq.symm, hlen, fun j hj i hi => ?_⟩
  exact (h.entry i (h.cols_eq ▸ hi) j (h.rows_eq ▸ hj)).symm

/-- The entries of a matrix and its shape leave one matrix with rows and columns exchanged. -/
theorem Exchanged.unique {u : Matrix β} (ht : m.Exchanged t) (hu : m.Exchanged u) : t = u := by
  have hrows : t.rows = u.rows := ht.rows_eq.trans hu.rows_eq.symm
  have hcols : t.cols = u.cols := ht.cols_eq.trans hu.cols_eq.symm
  have hentries : t.entries = u.entries := by
    refine eq_of_places ht.length_eq (by rw [hu.length_eq, hrows, hcols]) fun j hj i hi => ?_
    have hi' : i < m.rows := ht.cols_eq ▸ hi
    have hj' : j < m.cols := ht.rows_eq ▸ hj
    rw [ht.entry i hi' j hj', hcols, hu.entry i hi' j hj']
  cases t
  cases u
  exact (Matrix.mk.injEq ..).mpr ⟨hrows, hcols, hentries⟩

/-- A matrix with all its entries is transposed into the one with row and column exchanged. -/
theorem transposed_eq_some_iff (hlen : m.entries.length = m.rows * m.cols) :
    m.transposed = some t ↔ m.Exchanged t := by
  obtain ⟨u, hu, hshape, hulen, -⟩ := exists_transposed hlen
  have hrows : u.rows = m.cols := congrArg Shape.rows hshape
  have hcols : u.cols = m.rows := congrArg Shape.cols hshape
  have hexchanged : m.Exchanged u :=
    ⟨hrows, hcols, by rw [hulen, hrows, hcols], fun i hi j hj => entries_of_transposed hu hi hj⟩
  rw [hu, Option.some.injEq]
  constructor
  · intro h
    exact h ▸ hexchanged
  · intro h
    exact hexchanged.unique h

theorem transposed_transposed (hlen : m.entries.length = m.rows * m.cols)
    (h : m.transposed = some t) : t.transposed = some m := by
  have hexchanged := (transposed_eq_some_iff hlen).mp h
  exact (transposed_eq_some_iff hexchanged.length_eq).mpr (hexchanged.symm hlen)

/-- A column laid on its side and transposed again stands as a matrix of one column. -/
theorem transposed_column (c : Column β) :
    c.transposed.transposed = some ⟨c.size, 1, c.entries⟩ := by
  have hlen : c.transposed.entries.length = c.transposed.rows * c.transposed.cols :=
    (Nat.one_mul c.size).symm
  rw [transposed_eq_some_iff hlen]
  refine ⟨rfl, rfl, (Nat.mul_one c.size).symm, fun i hi j _ => ?_⟩
  have hplace : j * 1 + i = i * c.size + j := by rw [Nat.lt_one_iff.mp hi]; omega
  exact congrArg (c.entries[·]?) hplace

end Matrix

/-! ## Expressions -/

namespace Expression

theorem kind_of_transposed {e t : Expression α} (h : e.transposed = some t) :
    t.kind = e.kind := by
  cases e with
  | scalar s =>
    obtain rfl : .scalar s = t := Option.some.inj h
    rfl
  | vector k c =>
    obtain rfl : .matrix k c.transposed = t := Option.some.inj h
    rfl
  | matrix k m =>
    obtain ⟨n, -, rfl⟩ := Option.map_eq_some_iff.mp h
    rfl

/-- At every position the transposed expression has the element with row and column exchanged. -/
theorem at?_of_transposed {e t : Expression α} (h : e.transposed = some t)
    (hdims : t.dims = e.dims.transposed) {i j : Nat} (hi : i < e.dims.rows)
    (hj : j < e.dims.cols) : t.at? j i = e.at? i j := by
  have hj' : j < t.dims.rows := by rw [hdims]; exact hj
  have hi' : i < t.dims.cols := by rw [hdims]; exact hi
  rw [at?, at?, if_pos ⟨hj', hi'⟩, if_pos ⟨hi, hj⟩, getElem?_of_transposed h hi hj]

variable [One α]

/-- **Transposition moves every element and loses none.** Every valid expression can be transposed.
The result has rows and columns exchanged, elements of the same kind, and at every position the
element that was at the position with row and column exchanged. A scalar stays as it is; a vector
becomes a matrix of one row, which is transposed to the matrix of one column with the same entries;
and a matrix is transposed to a matrix from which it comes back. -/
theorem transpose_relocates {e : Expression α} (he : e.check = .ok ()) :
    ∃ t, e.transpose.outcome = .ok t ∧ t.dims = e.dims.transposed ∧ t.kind = e.kind ∧
      (∀ i < e.dims.rows, ∀ j < e.dims.cols, ∃ s, e.at? i j = .ok s ∧ t.at? j i = .ok s) ∧
      match e with
      | .scalar _ => t = e
      | .vector k c => t = .matrix k ⟨1, c.size, c.entries⟩ ∧
          t.transpose.outcome = .ok (.matrix k ⟨c.size, 1, c.entries⟩)
      | .matrix .. => t.form = .matrix ∧ t.transpose.outcome = .ok e := by
  have hin := check_eq_ok.mp he
  obtain ⟨t, ht, hdims, htin⟩ := exists_transposed hin
  have htcheck : t.check = .ok () := check_eq_ok.mpr htin
  refine ⟨t, transpose_eq_ok.mpr ⟨he, ht⟩, hdims, kind_of_transposed ht, fun i hi j hj => ?_, ?_⟩
  · obtain ⟨s, hs⟩ := exists_at? hin.length_eq hi hj
    exact ⟨s, hs, (at?_of_transposed ht hdims hi hj).trans hs⟩
  · cases e with
    | scalar s => exact (Option.some.inj ht).symm
    | vector k c =>
      obtain rfl : .matrix k c.transposed = t := Option.some.inj ht
      refine ⟨rfl, transpose_eq_ok.mpr ⟨htcheck, ?_⟩⟩
      exact Option.map_eq_some_iff.mpr ⟨_, Matrix.transposed_column c, rfl⟩
    | matrix k m =>
      obtain ⟨n, hn, rfl⟩ := Option.map_eq_some_iff.mp ht
      have hlen : m.entries.length = m.rows * m.cols :=
        (List.length_map _).symm.trans hin.length_eq
      refine ⟨rfl, transpose_eq_ok.mpr ⟨htcheck, ?_⟩⟩
      exact Option.map_eq_some_iff.mpr ⟨m, Matrix.transposed_transposed hlen hn, rfl⟩

/-- A matrix of two rows and three columns: the element in the first row and the last column comes
to stand in the last row and the first column, and goes back. -/
theorem transpose_relocates_matrix :
    let x : Variable ℤ := .numbered 0
    let m : Expression ℤ := .matrix .monomial
      ⟨2, 3, [⟨1, [x], [1]⟩, ⟨2, [x], [1]⟩, ⟨3, [x], [1]⟩, ⟨4, [], []⟩, ⟨5, [], []⟩, ⟨6, [], []⟩]⟩
    m.check = .ok () ∧ ∃ t, m.transpose.outcome = .ok t ∧ t.dims = ⟨3, 2⟩ ∧
      t.at? 2 0 = .ok (.monomial ⟨3, [x], [1]⟩) ∧ t.transpose.outcome = .ok m := by
  intro x m
  have hm : m.check = .ok () := by cbv
  obtain ⟨t, ht, hdims, -, hentry, -, hback⟩ := transpose_relocates hm
  obtain ⟨s, hs, hts⟩ := hentry 0 (by decide) 2 (by decide)
  have hthird : m.at? 0 2 = .ok (.monomial ⟨3, [x], [1]⟩) := rfl
  cases hthird.symm.trans hs
  exact ⟨hm, t, ht, hdims, hts, hback⟩

end Expression

end DecisionAlgebra
