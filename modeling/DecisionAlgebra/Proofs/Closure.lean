import DecisionAlgebra.Algebra.Simplify
import DecisionAlgebra.Calculus.Derivative
import DecisionAlgebra.Calculus.Evaluation
import DecisionAlgebra.Calculus.Substitution
import DecisionAlgebra.Proofs.Grids
import DecisionAlgebra.Proofs.LikeTerms

/-!
# Every operation keeps expressions well-formed

Where the operands are well-formed with identifiers in `P`, so is what an operation makes of them,
and the operation finds every element that it reads: a table of a product, a transposed matrix, the
elements for a place of an elementwise result. The lemmas go from scalars over grids to expressions,
one for each operation. No law of numbers is used, so they hold of any numbers.
-/

namespace DecisionAlgebra

open Attempt (Ensures)

variable {α β : Type} {P : VariableId → Prop}

/-- A table whose entries are all found has all of them, row after row. -/
theorem exists_table {f : Nat → Nat → Option β} {Q : β → Prop} {rows cols : Nat}
    (h : ∀ i < rows, ∀ j < cols, ∃ x, f i j = some x ∧ Q x) :
    ∃ table, (List.range rows).mapM (fun i => (List.range cols).mapM (f i)) = some table ∧
      table.flatten.length = rows * cols ∧ ∀ x ∈ table.flatten, Q x := by
  have hrow : ∀ i ∈ List.range rows, ∃ row, (List.range cols).mapM (f i) = some row ∧
      row.length = cols ∧ ∀ x ∈ row, Q x := by
    intro i hi
    obtain ⟨row, hrow, hlen, hQ⟩ := exists_mapM_eq_some (Q := Q) fun j hj =>
      h i (List.mem_range.mp hi) j (List.mem_range.mp hj)
    exact ⟨row, hrow, hlen.trans List.length_range, hQ⟩
  obtain ⟨table, htable, hlen, hrows⟩ := exists_mapM_eq_some hrow
  refine ⟨table, htable, ?_, fun x hx => ?_⟩
  · rw [length_flatten_of_length fun row hmem => (hrows row hmem).1, hlen, List.length_range]
  · obtain ⟨row, hmem, hx⟩ := List.mem_flatten.mp hx
    exact (hrows row hmem).2 x hx

/-- The entries of a table, row after row, are found where the places of its shape say. -/
theorem entries_of_table {f : Nat → Nat → Option β} {rows cols : Nat} {table : List (List β)}
    (h : (List.range rows).mapM (fun i => (List.range cols).mapM (f i)) = some table) :
    table.flatten.length = rows * cols ∧
      ∀ i < rows, ∀ j < cols, table.flatten[i * cols + j]? = f i j := by
  have hrows := mapM_eq_some.mp h
  have hcount : table.length = rows := by rw [← hrows.length_eq, List.length_range]
  have hrow : ∀ (i : Nat) (hi : i < table.length),
      (List.range cols).mapM (f i) = some table[i] := by
    intro i hi
    have hget := hrows.get (by rw [List.length_range, ← hcount]; exact hi) hi
    simpa only [List.get_eq_getElem, List.getElem_range] using hget
  have hlen : ∀ row ∈ table, row.length = cols := by
    intro row hmem
    obtain ⟨i, hi, rfl⟩ := List.getElem_of_mem hmem
    rw [← (mapM_eq_some.mp (hrow i hi)).length_eq, List.length_range]
  refine ⟨by rw [length_flatten_of_length hlen, hcount], fun i hi j hj => ?_⟩
  have hi' : i < table.length := hcount ▸ hi
  have hj' : j < table[i].length := (hlen _ (List.getElem_mem hi')).symm ▸ hj
  have hentry := (mapM_eq_some.mp (hrow i hi')).get (List.length_range.symm ▸ hj) hj'
  simp only [List.get_eq_getElem, List.getElem_range] at hentry
  rw [getElem?_flatten_of_length hj hlen, List.getElem?_eq_getElem hi', hentry]
  exact List.getElem?_eq_getElem hj'

/-! ## Well-formed grids -/

namespace Grid

/-- Every element is well-formed with identifiers in `P`, and there are as many as the shape asks
for, at least one. -/
structure FactorsIn [One α] (P : VariableId → Prop) (g : Grid α) : Prop extends Fits g where
  ne_nil : g.elements ≠ []
  each : ∀ s ∈ g.elements, s.FactorsIn P

variable [One α]

theorem factorsIn_ofExpression {e : Expression α} (he : e.FactorsIn P) :
    (ofExpression e).FactorsIn P :=
  ⟨fits_ofExpression he.length_eq, he.ne_nil, he.each⟩

theorem FactorsIn.size_pos {g : Grid α} (hg : g.FactorsIn P) : 0 < g.shape.size := by
  rw [← hg.length_eq]
  exact List.length_pos_iff.mpr hg.ne_nil

theorem FactorsIn.map {g : Grid α} (hg : g.FactorsIn P) {f : Scalar α → Scalar α}
    (hf : ∀ s, s.FactorsIn P → (f s).FactorsIn P) : (g.map f).FactorsIn P := by
  refine ⟨hg.toFits.map f, fun hnil => hg.ne_nil (List.map_eq_nil_iff.mp hnil), fun t ht => ?_⟩
  obtain ⟨s, hs, rfl⟩ := List.mem_map.mp ht
  exact hf s (hg.each s hs)

theorem FactorsIn.exists_mapM? {g : Grid α} (hg : g.FactorsIn P)
    {f : Scalar α → Option (Scalar α)}
    (hf : ∀ s, s.FactorsIn P → ∃ t, f s = some t ∧ t.FactorsIn P) :
    ∃ h, g.mapM? f = some h ∧ h.shape = g.shape ∧ h.FactorsIn P := by
  obtain ⟨ts, hts, hlen, hin⟩ := exists_mapM_eq_some fun s hs => hf s (hg.each s hs)
  have hgrid : g.mapM? f = some { g with elements := ts } := by
    rw [mapM?, hts]
    rfl
  refine ⟨_, hgrid, rfl, hg.toFits.mapM? hgrid, fun hnil => hg.ne_nil ?_, hin⟩
  exact List.eq_nil_of_length_eq_zero (hlen ▸ congrArg List.length hnil)

/-- Typing a well-formed grid gives a well-formed expression of its shape. -/
theorem FactorsIn.ensures_toExpression {g : Grid α} (hg : g.FactorsIn P) :
    Ensures (Attempt.checked g.toExpression) fun e => e.dims = g.shape ∧ e.FactorsIn P := by
  refine Attempt.ensures_checked fun e he => ?_
  have htyped := isTyped_of_toExpression hg.toFits he
  exact ⟨htyped.dims_eq, htyped.factorsIn hg.toFits hg.ne_nil hg.each⟩

/-- Over a layout of two grids every place has both its elements, and what is made of them can be
typed. -/
theorem exists_combined {f : Scalar α → Scalar α → Option (Scalar α)} {l r : Grid α} {form : Form}
    {shape : Shape} (hl : l.FactorsIn P) (hr : r.FactorsIn P) (h : IsLayout l r form shape)
    (hf : ∀ a b, a.FactorsIn P → b.FactorsIn P → ∃ s, f a b = some s ∧ s.FactorsIn P) :
    ∃ ps es e, l.pairs? r shape.size = some ps ∧ (ps.mapM fun p => f p.1 p.2) = some es ∧
      toExpression ⟨form, shape, es⟩ = .ok e := by
  obtain ⟨ps, hps⟩ := exists_pairs? hl.toFits hr.toFits h.left h.right
  obtain ⟨hcount, hmem⟩ := mem_of_pairs? hps
  obtain ⟨es, hes, hlen, -⟩ := exists_mapM_eq_some fun q hq =>
    hf q.1 q.2 (hl.each _ (hmem q hq).1) (hr.each _ (hmem q hq).2)
  have hfits : Fits ⟨form, shape, es⟩ := ⟨hlen.trans hcount, h.shape_scalar, h.cols_vector⟩
  obtain ⟨e, he, -⟩ := exists_toExpression hfits
  exact ⟨ps, es, e, hps, hes, he⟩

/-- Combining finds both elements for every place, and keeps what the function keeps. -/
theorem ensures_combine {op : Operation} {f : Scalar α → Scalar α → Option (Scalar α)}
    {l r : Grid α} (hl : l.FactorsIn P) (hr : r.FactorsIn P)
    (hf : ∀ a b, a.FactorsIn P → b.FactorsIn P → ∃ s, f a b = some s ∧ s.FactorsIn P) :
    Ensures (combine op f l r).outcome fun e => Combines f l r e ∧ e.FactorsIn P := by
  have hreads : Ensures (combine op f l r).outcome fun _ => True := by
    refine Traced.ensures_bind (ensures_layout hl.toFits hr.toFits) fun fs hlayout => ?_
    obtain ⟨ps, es, e, hps, hes, -⟩ := exists_combined hl hr hlayout hf
    refine Attempt.ensures_read_bind hps (Attempt.ensures_read_bind hes ?_)
    exact Attempt.ensures_checked fun _ _ => trivial
  refine ⟨hreads.inRange, fun e he => ?_⟩
  have hcombines := combines_of_combine hl.toFits hr.toFits he
  -- neither grid is empty, so the result is not
  have hsize : e.dims.size ≠ 0 := by
    rw [hcombines.dims_eq]
    split
    next => exact hr.size_pos.ne'
    next => exact hl.size_pos.ne'
  refine ⟨hcombines, hcombines.factorsIn hsize fun a ha b hb s hs => ?_⟩
  obtain ⟨t, ht, hin⟩ := hf a b (hl.each a ha) (hr.each b hb)
  exact Option.some.inj (hs.symm.trans ht) ▸ hin

end Grid

namespace Expression

/-! ## Elementwise results -/

/-- The shape of an elementwise result is that of every operand that is no scalar. -/
structure CommonDims (l r : Expression α) (dims : Shape) : Prop where
  left : l.isScalar = true ∨ l.dims = dims
  right : r.isScalar = true ∨ r.dims = dims
  scalar : l.isScalar = true → r.isScalar = true → dims = .scalar

theorem commonDims_of_eq {l r : Expression α} {dims : Shape}
    (hdims : dims = if l.form = .scalar then r.dims else l.dims)
    (hl : l.form = .scalar ∨ dims = l.dims) (hr : r.form = .scalar ∨ dims = r.dims) :
    CommonDims l r dims := by
  refine ⟨hl.imp isScalar_iff.mpr Eq.symm, hr.imp isScalar_iff.mpr Eq.symm, fun hls hrs => ?_⟩
  rw [hdims, if_pos (isScalar_iff.mp hls)]
  exact dims_of_scalar (isScalar_iff.mp hrs)

theorem commonDims_of_combines [One α] {f : Scalar α → Scalar α → Option (Scalar α)}
    {l r e : Expression α} (h : Grid.Combines f (.ofExpression l) (.ofExpression r) e) :
    CommonDims l r e.dims :=
  commonDims_of_eq h.dims_eq h.left h.right

variable [One α]

theorem size_pos {e : Expression α} (he : e.FactorsIn P) : 0 < e.dims.size :=
  (Grid.factorsIn_ofExpression he).size_pos

theorem ensures_combine_plus [Add α] {op : Operation} {l : Expression α} {g : Grid α}
    (hl : l.FactorsIn P) (hg : g.FactorsIn P) :
    Ensures (Grid.combine op (fun a b => some (a.plus b)) (.ofExpression l) g).outcome fun e =>
      Grid.Combines (fun a b => some (a.plus b)) (.ofExpression l) g e ∧ e.FactorsIn P :=
  Grid.ensures_combine (Grid.factorsIn_ofExpression hl) hg fun _ _ ha hb => ⟨_, rfl, ha.plus hb⟩

theorem ensures_combine_times [Mul α] {op : Operation} {l r : Expression α}
    (hl : l.FactorsIn P) (hr : r.FactorsIn P) :
    Ensures (Grid.combine op Scalar.times (.ofExpression l) (.ofExpression r)).outcome fun e =>
      Grid.Combines Scalar.times (.ofExpression l) (.ofExpression r) e ∧ e.FactorsIn P := by
  refine Grid.ensures_combine (Grid.factorsIn_ofExpression hl) (Grid.factorsIn_ofExpression hr)
    fun a b ha hb => ?_
  obtain ⟨s, hs, hin, -⟩ := Scalar.exists_times ha hb
  exact ⟨s, hs, hin⟩

theorem exists_negated [Neg α] [Mul α] {e : Expression α} (he : e.FactorsIn P) :
    ∃ g, (Grid.ofExpression e).mapM? Scalar.negated = some g ∧ g.FactorsIn P := by
  have hnegated : ∀ s : Scalar α, s.FactorsIn P → ∃ t, s.negated = some t ∧ t.FactorsIn P := by
    intro s hs
    obtain ⟨t, ht, hin, -⟩ := Scalar.exists_negated hs
    exact ⟨t, ht, hin⟩
  obtain ⟨g, hg, -, hin⟩ := (Grid.factorsIn_ofExpression he).exists_mapM? hnegated
  exact ⟨g, hg, hin⟩

/-- A sum is the sums of the elements that meet. -/
theorem combines_of_plus [Add α] {l r e : Expression α} (hl : l.FactorsIn P) (hr : r.FactorsIn P)
    (h : (l.plus r).outcome = .ok e) :
    Grid.Combines (fun a b => some (a.plus b)) (.ofExpression l) (.ofExpression r) e ∧
      e.FactorsIn P := by
  rw [plus, Traced.outcome_bind, unit_bind_eq_ok] at h
  exact (ensures_combine_plus hl (Grid.factorsIn_ofExpression hr)).value e h.2

/-- The right side of a difference is negated beforehand; combining could as well have done it. -/
theorem combines_of_minus [Add α] [Neg α] [Mul α] {l r e : Expression α} (hl : l.FactorsIn P)
    (hr : r.FactorsIn P) (h : (l.minus r).outcome = .ok e) :
    Grid.Combines (fun a b => b.negated >>= fun c => some (a.plus c)) (.ofExpression l)
      (.ofExpression r) e ∧ e.FactorsIn P := by
  rw [minus, Traced.outcome_bind, unit_bind_eq_ok, Traced.outcome_bind, bind_eq_ok] at h
  obtain ⟨-, g, hg, h⟩ := h
  rw [Traced.outcome_quiet, Attempt.read_eq_ok] at hg
  obtain ⟨g', hg', hgin⟩ := exists_negated hr
  obtain rfl : g' = g := Option.some.inj (hg'.symm.trans hg)
  obtain ⟨hcombines, hin⟩ := (ensures_combine_plus hl hgin).value e h
  exact ⟨hcombines.mapM?_right hg, hin⟩

/-! ## Matrix products -/

section Product

variable [Zero α] [Add α] [Mul α] [BEq α]

/-- An entry of a matrix product is the simplified sum of the products along a row and a column. -/
theorem productAt?_eq_some {xs ys : Array (Scalar α)} {inner cols i j : Nat} {s : Scalar α} :
    productAt? xs ys inner cols i j = some s ↔
      ∃ ts, List.Forall₂ (fun k t => ∃ a b, xs[i * inner + k]? = some a ∧
        ys[k * cols + j]? = some b ∧ a.times b = some t) (List.range inner) ts ∧
        (Scalar.sum ts).simplified = s := by
  have hstep : ∀ (k : Nat) (t : Scalar α), (do
      let a ← xs[i * inner + k]?
      let b ← ys[k * cols + j]?
      a.times b) = some t ↔
        ∃ a b, xs[i * inner + k]? = some a ∧ ys[k * cols + j]? = some b ∧ a.times b = some t := by
    intro k t
    simp only [Option.bind_eq_bind, Option.bind_eq_some_iff]
    constructor
    · intro h
      obtain ⟨a, ha, b, hb, ht⟩ := h
      exact ⟨a, b, ha, hb, ht⟩
    · intro h
      obtain ⟨a, b, ha, hb, ht⟩ := h
      exact ⟨a, ha, b, hb, ht⟩
  unfold productAt?
  rw [Option.bind_eq_bind, Option.bind_eq_some_iff]
  simp only [mapM_eq_some, hstep]
  exact exists_congr fun ts => and_congr_right fun _ => Option.some_inj

/-- Every entry of a product of fitting operands is found. -/
theorem exists_productAt? {l r : Expression α} (hl : l.FactorsIn P) (hr : r.FactorsIn P)
    (hinner : l.dims.cols = r.dims.rows) {i j : Nat} (hi : i < l.dims.rows)
    (hj : j < r.dims.cols) :
    ∃ s, productAt? l.elements.toArray r.elements.toArray l.dims.cols r.dims.cols i j = some s ∧
      s.FactorsIn P := by
  have hterm : ∀ k ∈ List.range l.dims.cols, ∃ t, (do
      let a ← l.elements.toArray[i * l.dims.cols + k]?
      let b ← r.elements.toArray[k * r.dims.cols + j]?
      a.times b) = some t ∧ t.FactorsIn P := by
    intro k hk
    have hk' := List.mem_range.mp hk
    have hleft : i * l.dims.cols + k < l.elements.length := hl.length_eq ▸ Shape.place_lt hi hk'
    have hright : k * r.dims.cols + j < r.elements.length :=
      hr.length_eq ▸ Shape.place_lt (hinner ▸ hk') hj
    obtain ⟨t, ht, hin, -⟩ := Scalar.exists_times (hl.each _ (List.getElem_mem hleft))
      (hr.each _ (List.getElem_mem hright))
    refine ⟨t, ?_, hin⟩
    rw [List.getElem?_toArray, List.getElem?_toArray, List.getElem?_eq_getElem hleft,
      List.getElem?_eq_getElem hright]
    exact ht
  obtain ⟨ts, hts, -, hin⟩ := exists_mapM_eq_some hterm
  exact ⟨(Scalar.sum ts).simplified, by rw [productAt?, hts]; rfl,
    (Scalar.factorsIn_sum hin).simplified⟩

/-- The elements of a matrix product by rows are its entries. -/
theorem entries_of_productElements? {l r : Grid α} {es : List (Scalar α)}
    (h : productElements? l r = some es) :
    es.length = l.shape.rows * r.shape.cols ∧
      ∀ i < l.shape.rows, ∀ j < r.shape.cols, es[i * r.shape.cols + j]? =
        productAt? l.elements.toArray r.elements.toArray l.shape.cols r.shape.cols i j := by
  unfold productElements? at h
  rw [Option.bind_eq_bind, Option.bind_eq_some_iff] at h
  obtain ⟨rows, hrows, hes⟩ := h
  obtain rfl : rows.flatten = es := Option.some.inj hes
  exact entries_of_table hrows

/-- Every element of a matrix product is one of its entries. -/
theorem exists_of_mem_productElements? {l r : Grid α} {es : List (Scalar α)}
    (h : productElements? l r = some es) {s : Scalar α} (hs : s ∈ es) :
    ∃ i j, productAt? l.elements.toArray r.elements.toArray l.shape.cols r.shape.cols i j =
      some s := by
  unfold productElements? at h
  rw [Option.bind_eq_bind, Option.bind_eq_some_iff] at h
  obtain ⟨rows, hrows, hes⟩ := h
  obtain rfl : rows.flatten = es := Option.some.inj hes
  obtain ⟨row, hrow, hs⟩ := List.mem_flatten.mp hs
  obtain ⟨i, -, hrow⟩ := exists_of_mem_forall₂ (mapM_eq_some.mp hrows) hrow
  obtain ⟨j, -, hs⟩ := exists_of_mem_forall₂ (mapM_eq_some.mp hrow) hs
  exact ⟨i, j, hs⟩

theorem exists_productElements? {l r : Expression α} (hl : l.FactorsIn P) (hr : r.FactorsIn P)
    (hinner : l.dims.cols = r.dims.rows) :
    ∃ es, productElements? (.ofExpression l) (.ofExpression r) = some es ∧
      es.length = l.dims.rows * r.dims.cols ∧ ∀ s ∈ es, s.FactorsIn P := by
  obtain ⟨rows, hrows, hlen, hin⟩ := exists_table fun i hi j hj =>
    exists_productAt? hl hr hinner hi hj
  refine ⟨rows.flatten, ?_, hlen, hin⟩
  exact Option.bind_eq_some_iff.mpr ⟨rows, hrows, rfl⟩

omit [One α] [Zero α] [Add α] [Mul α] [BEq α] in
/-- The form of a product fits its shape. -/
theorem fits_productForm {s : Shape} {es : List (Scalar α)} (h : es.length = s.size) :
    Grid.Fits ⟨productForm s, s, es⟩ := by
  refine ⟨h, fun hs => ?_, fun hv => ?_⟩
  all_goals simp only [productForm] at *
  · split at hs
    next hcols =>
      split at hs
      next hrows => exact (Shape.mk.injEq ..).mpr ⟨hrows, hcols⟩
      next => cases hs
    next => cases hs
  · split at hv
    next hcols => exact hcols
    next => cases hv

/-- The entries of a product of fitting operands make a well-formed grid. -/
theorem exists_productGrid {l r : Expression α} (hl : l.FactorsIn P) (hr : r.FactorsIn P)
    (hinner : l.dims.cols = r.dims.rows) :
    ∃ es, productElements? (.ofExpression l) (.ofExpression r) = some es ∧
      Grid.FactorsIn P
        ⟨productForm ⟨l.dims.rows, r.dims.cols⟩, ⟨l.dims.rows, r.dims.cols⟩, es⟩ := by
  obtain ⟨es, hes, hlen, hin⟩ := exists_productElements? hl hr hinner
  have hne : es ≠ [] := by
    have hrows : 0 < l.dims.rows := Nat.pos_of_mul_pos_right (size_pos hl)
    have hcols : 0 < r.dims.cols := Nat.pos_of_mul_pos_left (size_pos hr)
    exact List.length_pos_iff.mp (hlen ▸ Nat.mul_pos hrows hcols)
  exact ⟨es, hes, fits_productForm hlen, hne, hin⟩

/-- A matrix product needs as many columns on the left as rows on the right, and then it exists. -/
theorem ensures_matrixProduct {l r : Expression α} (hl : l.FactorsIn P) (hr : r.FactorsIn P) :
    Ensures (matrixProduct (.ofExpression l) (.ofExpression r)).outcome fun e =>
      (l.dims.cols = r.dims.rows ∧ e.dims = ⟨l.dims.rows, r.dims.cols⟩) ∧ e.FactorsIn P := by
  unfold matrixProduct
  split
  next hinner =>
    obtain ⟨es, hes, hgrid⟩ := exists_productGrid hl hr hinner
    refine Attempt.ensures_read_bind hes ?_
    exact hgrid.ensures_toExpression.mono fun e he => ⟨⟨hinner, he.1⟩, he.2⟩
  next => exact Grid.ensures_refuseShapes .multiply _ _

end Product

end Expression

/-! ## Transposition -/

/-- A matrix with all its entries is transposed without reading past them. -/
theorem Matrix.exists_transposed {m : Matrix β} (h : m.entries.length = m.rows * m.cols) :
    ∃ t, m.transposed = some t ∧ t.shape = m.shape.transposed ∧
      t.entries.length = m.cols * m.rows ∧ ∀ x ∈ t.entries, x ∈ m.entries := by
  have hentry : ∀ j < m.cols, ∀ i < m.rows,
      ∃ x, m.entries.toArray[i * m.cols + j]? = some x ∧ x ∈ m.entries := by
    intro j hj i hi
    have hplace : i * m.cols + j < m.entries.length := h ▸ Shape.place_lt (s := m.shape) hi hj
    refine ⟨_, ?_, List.getElem_mem hplace⟩
    rw [List.getElem?_toArray, List.getElem?_eq_getElem hplace]
  obtain ⟨columns, hcolumns, hlen, hmem⟩ := exists_table hentry
  refine ⟨⟨m.cols, m.rows, columns.flatten⟩, ?_, rfl, hlen, hmem⟩
  rw [transposed, hcolumns]
  rfl

/-- The entries of the transposed matrix are those with row and column exchanged. -/
theorem Matrix.entries_of_transposed {m t : Matrix β} (h : m.transposed = some t) {i j : Nat}
    (hi : i < m.rows) (hj : j < m.cols) :
    t.entries[j * t.cols + i]? = m.entries[i * m.cols + j]? := by
  unfold transposed at h
  rw [Option.bind_eq_bind, Option.bind_eq_some_iff] at h
  obtain ⟨columns, hcolumns, ht⟩ := h
  obtain rfl : ⟨m.cols, m.rows, columns.flatten⟩ = t := Option.some.inj ht
  rw [(entries_of_table hcolumns).2 j hj i hi, List.getElem?_toArray]

/-- Transposing a matrix loses no entry. -/
theorem Matrix.mem_entries_of_transposed {m t : Matrix β}
    (hlen : m.entries.length = m.rows * m.cols) (h : m.transposed = some t) {x : β} :
    x ∈ t.entries ↔ x ∈ m.entries := by
  constructor
  · obtain ⟨t', ht', -, -, hmem⟩ := exists_transposed hlen
    obtain rfl : t' = t := Option.some.inj (ht'.symm.trans h)
    exact hmem x
  · intro hx
    obtain ⟨k, hk, rfl⟩ := List.getElem_of_mem hx
    -- the place is in a row and a column of the matrix
    have hcols : 0 < m.cols := Nat.pos_of_mul_pos_left (Nat.zero_lt_of_lt (hlen ▸ hk))
    have hrow : k / m.cols < m.rows := Nat.div_lt_of_lt_mul (Nat.mul_comm _ _ ▸ hlen ▸ hk)
    have hentry := entries_of_transposed h hrow (Nat.mod_lt k hcols)
    rw [Nat.div_add_mod', List.getElem?_eq_getElem hk] at hentry
    exact List.mem_of_getElem? hentry

namespace Expression

theorem exists_transposed [One α] {e : Expression α} (he : e.FactorsIn P) :
    ∃ t, e.transposed = some t ∧ t.dims = e.dims.transposed ∧ t.FactorsIn P := by
  cases e with
  | scalar s => exact ⟨.scalar s, rfl, rfl, he⟩
  | vector k c =>
    refine ⟨.matrix k c.transposed, rfl, rfl, ?_, he.ne_nil, he.each⟩
    rw [dims, Matrix.shape, Shape.size, Column.transposed, Nat.one_mul]
    exact List.length_map _
  | matrix k m =>
    have hlen : m.entries.length = m.rows * m.cols :=
      (List.length_map _).symm.trans he.length_eq
    obtain ⟨t, ht, hshape, htlen, hmem⟩ := Matrix.exists_transposed hlen
    refine ⟨.matrix k t, by rw [transposed, ht]; rfl, hshape, ?_, ?_, fun s hs => ?_⟩
    · rw [dims, hshape]
      exact (List.length_map _).trans htlen
    · -- there are as many entries as before
      intro hnil
      refine (size_pos he).ne' ?_
      show m.rows * m.cols = 0
      rw [Nat.mul_comm, ← htlen, List.map_eq_nil_iff.mp hnil, List.length_nil]
    · obtain ⟨x, hx, rfl⟩ := List.mem_map.mp hs
      exact he.each _ (List.mem_map_of_mem (hmem x hx))

/-- Transposing keeps the elements, in whatever order. -/
theorem mem_elements_of_transposed {e t : Expression α} (he : e.elements.length = e.dims.size)
    (h : e.transposed = some t) {s : Scalar α} : s ∈ t.elements ↔ s ∈ e.elements := by
  cases e with
  | scalar a =>
    obtain rfl : .scalar a = t := Option.some.inj h
    exact Iff.rfl
  | vector k c =>
    obtain rfl : .matrix k c.transposed = t := Option.some.inj h
    exact Iff.rfl
  | matrix k m =>
    obtain ⟨n, hn, rfl⟩ := Option.map_eq_some_iff.mp h
    have hlen : m.entries.length = m.rows * m.cols := (List.length_map _).symm.trans he
    simp only [elements, List.mem_map, Matrix.mem_entries_of_transposed hlen hn]

/-- The element of the transposed expression is that with row and column exchanged. -/
theorem getElem?_of_transposed {e t : Expression α} (h : e.transposed = some t) {i j : Nat}
    (hi : i < e.dims.rows) (hj : j < e.dims.cols) :
    t.elements[j * t.dims.cols + i]? = e.elements[i * e.dims.cols + j]? := by
  cases e with
  | scalar s =>
    obtain rfl : .scalar s = t := Option.some.inj h
    rw [Nat.lt_one_iff.mp hi, Nat.lt_one_iff.mp hj]
  | vector k c =>
    obtain rfl : .matrix k c.transposed = t := Option.some.inj h
    have hplace : j * c.size + i = i * 1 + j := by rw [Nat.lt_one_iff.mp hj]; omega
    show (c.entries.map (Scalar.ofEntry k))[j * c.size + i]? = _
    rw [hplace]
    rfl
  | matrix k m =>
    obtain ⟨n, hn, rfl⟩ := Option.map_eq_some_iff.mp h
    show (n.entries.map (Scalar.ofEntry k))[j * n.cols + i]? =
      (m.entries.map (Scalar.ofEntry k))[i * m.cols + j]?
    rw [List.getElem?_map, List.getElem?_map, Matrix.entries_of_transposed hn hi hj]

end Expression

/-! ## Simplification -/

section Simplify

variable [Zero α] [Add α] [BEq α]

theorem Scalar.ofEntry_simplifyEntry (k : Kind) (x : k.Entry α) :
    ofEntry k (k.simplifyEntry x) = (ofEntry k x).simplified := by
  cases k <;> rfl

namespace Expression

theorem elements_simplified (e : Expression α) :
    e.simplified.elements = e.elements.map Scalar.simplified := by
  cases e with
  | scalar s => rfl
  | vector k c =>
    simp only [simplified, elements, Column.map, List.map_map]
    exact List.map_congr_left fun x _ => Scalar.ofEntry_simplifyEntry k x
  | matrix k m =>
    simp only [simplified, elements, Matrix.map, List.map_map]
    exact List.map_congr_left fun x _ => Scalar.ofEntry_simplifyEntry k x

@[simp] theorem dims_simplified (e : Expression α) : e.simplified.dims = e.dims := by
  cases e with
  | scalar s => rfl
  | vector k c => simp [simplified, dims, Column.shape, Column.size, Column.map]
  | matrix k m => rfl

theorem FactorsIn.simplified [One α] {e : Expression α} (he : e.FactorsIn P) :
    e.simplified.FactorsIn P := by
  refine ⟨?_, ?_, fun t ht => ?_⟩
  · rw [elements_simplified, List.length_map, he.length_eq, dims_simplified]
  · rw [elements_simplified]
    exact fun hnil => he.ne_nil (List.map_eq_nil_iff.mp hnil)
  · rw [elements_simplified] at ht
    obtain ⟨s, hs, rfl⟩ := List.mem_map.mp ht
    exact (he.each s hs).simplified

end Expression

end Simplify

/-! ## Derivatives -/

section Derivative

variable [NatCast α] [Mul α]

theorem Monomial.FactorsIn.derivative? {m d : Monomial α} {v : Variable α} (hm : m.FactorsIn P)
    (h : m.derivative? v = some d) : d.FactorsIn P := by
  rw [Monomial.derivative?] at h
  by_cases hzero : m.exponentOf v = 0
  · rw [if_pos hzero] at h
    cases h
  · rw [if_neg hzero] at h
    cases h
    refine factorsIn_ofFactors fun f hf => ?_
    obtain ⟨g, hg, rfl⟩ := List.mem_map.mp (List.mem_filter.mp hf).1
    have hid : (lowerFactor v g).1 = g.1 := by unfold lowerFactor; split <;> rfl
    exact hid ▸ hm.normalized.of_mem hg

/-- Where no term is left, the derivative is the constant zero. -/
theorem Scalar.FactorsIn.derivative [Zero α] [One α] {s : Scalar α} (hs : s.FactorsIn P)
    (v : Variable α) : (s.derivative v).FactorsIn P := by
  cases s with
  | constant c => exact factorsIn_constant 0
  | «variable» w => exact factorsIn_constant _
  | monomial m =>
    rw [Scalar.derivative]
    split
    next d hd => exact .singleton ((hs.each m List.mem_cons_self).derivative? hd)
    next => exact factorsIn_constant 0
  | polynomial p =>
    rw [Scalar.derivative]
    split
    next => exact factorsIn_constant 0
    next hne =>
      refine ⟨hne, fun d hd => ?_⟩
      obtain ⟨m, hm, hd⟩ := List.mem_filterMap.mp hd
      exact (hs.each m hm).derivative? hd

end Derivative

/-! ## Substitution -/

section Substitution

namespace Monomial

theorem FactorsIn.without {m : Monomial α} {v : Variable α}
    (hm : m.FactorsIn fun id => id = v.id ∨ P id) : (m.without v).FactorsIn P := by
  refine factorsIn_ofFactors fun f hf => ?_
  obtain ⟨hmem, hne⟩ := List.mem_filter.mp hf
  have hid : f.1.id ≠ v.id := by simpa using hne
  exact (hm.of_mem hmem).resolve_left hid

/-- A factor with total exponent zero does not survive. -/
theorem FactorsIn.normalized_of_zero {m : Monomial α} {v : Variable α}
    (hm : m.FactorsIn fun id => id = v.id ∨ P id) (hzero : m.exponentMap v.id = 0) :
    m.normalized.FactorsIn P := by
  have hnormal := m.normal_normalized
  refine ⟨hnormal.length_eq, fun w hw => ?_⟩
  rw [vars_eq hnormal.length_eq] at hw
  obtain ⟨f, hf, rfl⟩ := List.mem_map.mp hw
  refine (hm.normalized.of_mem hf).resolve_left fun hid => ?_
  have hexp := hnormal.exponent_eq hf
  have hpos := hnormal.pos f hf
  rw [hid, exponentMap_normalized, hzero] at hexp
  exact UInt32.pos_iff_ne_zero.mp hpos hexp.symm

theorem contains_iff {m : Monomial α} {v : Variable α} :
    m.contains v = true ↔ m.exponentMap v.id ≠ 0 := by
  rw [contains, exponentOf_eq, decide_eq_true_eq, UInt32.pos_iff_ne_zero]

/-- Replacing a variable in a term leaves terms whose normal forms are without it. -/
theorem exists_substitute [One α] [Mul α] {m : Monomial α} {v : Variable α} {r : Scalar α}
    (hm : m.FactorsIn fun id => id = v.id ∨ P id) (hr : r.FactorsIn P) :
    ∃ t, m.substitute v r = some t ∧ ∀ n ∈ t.toMonomials, n.normalized.FactorsIn P := by
  unfold substitute
  by_cases hcontains : m.contains v = true
  · -- the factors of `v` become a power of the replacement
    have hwithout : (Scalar.monomial (m.without v)).FactorsIn P := .singleton hm.without
    obtain ⟨power, hpower, hpowerIn⟩ := Scalar.exists_power hr (m.exponentOf v).toNat
    obtain ⟨t, ht, htin, -⟩ := Scalar.exists_times hwithout hpowerIn
    refine ⟨t, ?_, fun n hn => (htin.each n hn).normalized⟩
    rw [if_pos hcontains, hpower]
    exact ht
  · -- `v` may be written with exponent zero: the term stays, and its normal form is without `v`
    refine ⟨.monomial m, if_neg hcontains, fun n hn => ?_⟩
    rw [List.mem_singleton.mp hn]
    exact hm.normalized_of_zero (not_not.mp fun h => hcontains (contains_iff.mpr h))

end Monomial

/-- **Replacing a variable in a scalar** always succeeds and rids it of the variable. -/
theorem Scalar.exists_substitute [Zero α] [One α] [Add α] [Mul α] [BEq α] {s : Scalar α}
    {v : Variable α} {r : Scalar α} (hs : s.FactorsIn fun id => id = v.id ∨ P id)
    (hr : r.FactorsIn P) : ∃ t, s.substitute v r = some t ∧ t.FactorsIn P := by
  cases s with
  | constant c => exact ⟨.constant c, rfl, factorsIn_constant c⟩
  | «variable» w =>
    by_cases hw : w.id = v.id
    · exact ⟨r, by rw [substitute, if_pos (Variable.beq_iff.mpr hw)], hr⟩
    · refine ⟨.«variable» w, ?_, ?_⟩
      · rw [substitute, if_neg fun h => hw (Variable.beq_iff.mp h)]
      · exact factorsIn_variable.mpr ((factorsIn_variable.mp hs).resolve_left hw)
  | monomial m =>
    obtain ⟨t, ht, hleft⟩ := Monomial.exists_substitute (hs.each m List.mem_cons_self) hr
    exact ⟨t.simplified, by rw [substitute, ht]; rfl, factorsIn_simplified hleft⟩
  | polynomial p =>
    have hstep : ∀ m ∈ p.monomials, ∃ t, m.substitute v r = some t ∧
        ∀ n ∈ t.toMonomials, n.normalized.FactorsIn P :=
      fun m hm => Monomial.exists_substitute (hs.each m hm) hr
    obtain ⟨ts, hts, hlen, hleft⟩ := exists_mapM_eq_some hstep
    refine ⟨.polynomial (sum ts).toPolynomial.simplified, by rw [substitute, hts]; rfl, ?_⟩
    have hne : ts ≠ [] := by
      intro hnil
      rw [hnil] at hlen
      exact hs.ne_nil (List.eq_nil_of_length_eq_zero hlen.symm)
    -- a term of the sum is a term of a replaced term, up to its coefficient
    refine Polynomial.termsIn_simplified fun m hm => ?_
    obtain ⟨t, ht, n, hn, c, rfl⟩ := mem_toMonomials_sum hne hm
    exact (hleft t ht n hn).withCoefficient c

end Substitution

/-! ## Evaluation -/

/-- What evaluation gives is an expression of the same shape, in which no variable is written. -/
theorem Expression.FactorsIn.of_evaluate [Zero α] [One α] [Add α] [Neg α] [Mul α]
    {e v : Expression α} {p : Point α} (he : e.FactorsIn P) (h : e.evaluate p = .ok v) :
    v.dims = e.dims ∧ v.FactorsIn fun _ => False := by
  rw [evaluate, unit_bind_eq_ok, bind_eq_ok] at h
  obtain ⟨-, xs, hxs, hv⟩ := h
  have hlen : (xs.map Scalar.constant).length = e.elements.length := by
    rw [List.length_map, ← (mapM_eq_ok.mp hxs).length_eq]
  have hgrid : Grid.FactorsIn (fun _ => False) ⟨e.form, e.dims, xs.map .constant⟩ := by
    refine ⟨Grid.fits_of_length he.length_eq hlen, ?_, fun s hs => ?_⟩
    · exact List.length_pos_iff.mp (hlen ▸ List.length_pos_iff.mpr he.ne_nil)
    · obtain ⟨x, -, rfl⟩ := List.mem_map.mp hs
      exact Scalar.factorsIn_constant x
  exact hgrid.ensures_toExpression.value v (Attempt.checked_eq_ok.mpr hv)

end DecisionAlgebra
