import DecisionAlgebra.Algebra.Operators
import DecisionAlgebra.Dense
import DecisionAlgebra.Proofs.Contracts
import DecisionAlgebra.Proofs.WellFormed

/-!
# Grids and the expressions made of them

A result is computed element by element and then typed: `toExpression` lifts every element into the
least general kind that holds them all. That always succeeds, because the kinds form a semilattice
and a value is lifted without changing its terms. So what an expression holds can be said place by
place: elements are counted by rows, the element in row `i` and column `j` of `cols` columns at
place `i * cols + j`, and a scalar has its one element everywhere.
-/

namespace DecisionAlgebra

open Attempt (Ensures)

variable {α β : Type} {P Q : VariableId → Prop}

/-! ## Rows -/

/-- The place of an entry of a shape is among as many as the shape asks for. -/
theorem Shape.place_lt {s : Shape} {i j : Nat} (hi : i < s.rows) (hj : j < s.cols) :
    i * s.cols + j < s.size := by
  rw [size, Nat.mul_comm s.rows]
  exact DenseMatrix.place_lt hj hi

/-- By rows, places are ordered as the positions are. -/
theorem Shape.place_lt_place_iff {cols i j i' j' : Nat} (hj : j < cols) (hj' : j' < cols) :
    i' * cols + j' < i * cols + j ↔ i' < i ∨ i' = i ∧ j' < j := by
  rcases Nat.lt_trichotomy i' i with hlt | rfl | hgt
  · have hrow : (i' + 1) * cols ≤ i * cols := Nat.mul_le_mul_right cols hlt
    rw [Nat.succ_mul] at hrow
    omega
  · omega
  · have hrow : (i + 1) * cols ≤ i' * cols := Nat.mul_le_mul_right cols hgt
    rw [Nat.succ_mul] at hrow
    omega

/-- A row and a column can be read off the place by rows. -/
theorem Shape.position_of_place {cols i j : Nat} (hj : j < cols) :
    (i * cols + j) / cols = i ∧ (i * cols + j) % cols = j := by
  have hcols : 0 < cols := Nat.zero_lt_of_lt hj
  constructor
  · rw [Nat.add_comm, Nat.add_mul_div_right j i hcols, Nat.div_eq_of_lt hj, Nat.zero_add]
  · rw [Nat.mul_add_mod', Nat.mod_eq_of_lt hj]

/-- Every place of a shape is in a row and a column of it. -/
theorem Shape.position_lt {s : Shape} {k : Nat} (hk : k < s.size) :
    k / s.cols < s.rows ∧ k % s.cols < s.cols := by
  have hcols : 0 < s.cols := Nat.pos_of_mul_pos_left (Nat.zero_lt_of_lt hk)
  exact ⟨Nat.div_lt_of_lt_mul (Nat.mul_comm _ _ ▸ hk), Nat.mod_lt k hcols⟩

/-- The place of an entry among rows of equal length. -/
theorem getElem?_flatten_of_length {n j : Nat} (hj : j < n) {rows : List (List β)} :
    (∀ r ∈ rows, r.length = n) → ∀ i : Nat,
      rows.flatten[i * n + j]? = rows[i]?.bind fun r => r[j]? := by
  induction rows with
  | nil => intro _ i; rfl
  | cons r rows ih =>
    intro hrows i
    have hr : r.length = n := hrows r List.mem_cons_self
    rw [List.flatten_cons]
    cases i with
    | zero =>
      rw [Nat.zero_mul, Nat.zero_add, List.getElem?_append_left (hr ▸ hj)]
      rfl
    | succ i =>
      have hplace : (i + 1) * n + j = i * n + j + r.length := by rw [Nat.succ_mul, hr]; omega
      rw [hplace, List.getElem?_append_right (Nat.le_add_left _ _), Nat.add_sub_cancel]
      exact ih (fun t ht => hrows t (List.mem_cons_of_mem _ ht)) i

theorem length_flatten_of_length {n : Nat} {rows : List (List β)} (h : ∀ r ∈ rows, r.length = n) :
    rows.flatten.length = rows.length * n := by
  rw [List.length_flatten, List.map_congr_left h, List.map_const', List.sum_replicate_nat]

/-- Lists of as many entries as a shape asks for are equal if they agree at the place of every
position. -/
theorem eq_of_places {rows cols : Nat} {xs ys : List β} (hxs : xs.length = rows * cols)
    (hys : ys.length = rows * cols)
    (h : ∀ i < rows, ∀ j < cols, xs[i * cols + j]? = ys[i * cols + j]?) : xs = ys := by
  refine List.ext_getElem? fun k => ?_
  by_cases hk : k < rows * cols
  · have hposition := Shape.position_lt (s := ⟨rows, cols⟩) hk
    rw [← Nat.div_add_mod' k cols]
    exact h _ hposition.1 _ hposition.2
  · rw [List.getElem?_eq_none (hxs.le.trans (Nat.le_of_not_lt hk)),
      List.getElem?_eq_none (hys.le.trans (Nat.le_of_not_lt hk))]

/-! ## Kinds -/

namespace Kind

/-- Values of the one kind can be lifted into the other. -/
def Within (a b : Kind) : Prop := a.join b = b

theorem within_refl (a : Kind) : a.Within a := by
  cases a <;> rfl

theorem within_join_left (a b : Kind) : a.Within (a.join b) := by
  cases a <;> cases b <;> rfl

theorem within_join_right (a b : Kind) : b.Within (a.join b) := by
  cases a <;> cases b <;> rfl

theorem Within.trans {a b c : Kind} (hab : a.Within b) (hbc : b.Within c) : a.Within c := by
  revert hab hbc
  unfold Within
  cases a <;> cases b <;> cases c <;> decide

theorem Within.antisymm {a b : Kind} (hab : a.Within b) (hba : b.Within a) : a = b := by
  revert hab hba
  unfold Within
  cases a <;> cases b <;> decide

theorem Within.join {a b k : Kind} (ha : a.Within k) (hb : b.Within k) : (a.join b).Within k := by
  revert ha hb
  unfold Within
  cases a <;> cases b <;> cases k <;> decide

theorem constant_within {k : Kind} (hk : k ≠ .variable) : Kind.constant.Within k := by
  revert hk
  unfold Within
  cases k <;> decide

theorem within_foldl_join (ks : List Kind) :
    ∀ a : Kind, a.Within (ks.foldl join a) ∧ ∀ k ∈ ks, k.Within (ks.foldl join a) := by
  induction ks with
  | nil => intro a; exact ⟨within_refl a, nofun⟩
  | cons b ks ih =>
    intro a
    obtain ⟨hjoin, hks⟩ := ih (a.join b)
    refine ⟨(within_join_left a b).trans hjoin, fun k hk => ?_⟩
    rcases List.mem_cons.mp hk with rfl | hk'
    · exact (within_join_right a k).trans hjoin
    · exact hks k hk'

theorem within_joinAll {k : Kind} {ks : List Kind} (hk : k ∈ ks) : k.Within (joinAll ks) := by
  cases ks with
  | nil => cases hk
  | cons a ks =>
    obtain ⟨ha, hks⟩ := within_foldl_join ks a
    rcases List.mem_cons.mp hk with rfl | hk'
    · exact ha
    · exact hks k hk'

theorem Within.foldl_join {k : Kind} (ks : List Kind) :
    ∀ {a : Kind}, a.Within k → (∀ b ∈ ks, b.Within k) → (ks.foldl Kind.join a).Within k := by
  induction ks with
  | nil => intro a ha _; exact ha
  | cons b ks ih =>
    intro a ha hks
    obtain ⟨hb, hks⟩ := List.forall_mem_cons.mp hks
    exact ih (ha.join hb) hks

theorem joinAll_within {k : Kind} {ks : List Kind} (hne : ks ≠ []) (h : ∀ a ∈ ks, a.Within k) :
    (joinAll ks).Within k := by
  cases ks with
  | nil => exact absurd rfl hne
  | cons a ks =>
    obtain ⟨ha, hks⟩ := List.forall_mem_cons.mp h
    exact ha.foldl_join ks hks

/-- A kind in a list that holds the values of all of them is their join. -/
theorem joinAll_eq {k : Kind} {ks : List Kind} (hk : k ∈ ks) (h : ∀ a ∈ ks, a.Within k) :
    joinAll ks = k :=
  Within.antisymm (joinAll_within (List.ne_nil_of_mem hk) h) (within_joinAll hk)

end Kind

namespace Scalar

variable [One α]

@[simp] theorem toMonomials_promote (s : Scalar α) (k : Kind) :
    (s.promote k).toMonomials = s.toMonomials := by
  cases k <;> cases s <;> rfl

theorem promote_kind (s : Scalar α) : s.promote s.kind = s := by
  cases s <;> rfl

omit [One α] in
theorem kind_ofEntry (k : Kind) (x : k.Entry α) : (ofEntry k x).kind = k := by
  cases k <;> rfl

theorem exists_toEntry {s : Scalar α} {k : Kind} (h : s.kind.Within k) :
    ∃ x, s.toEntry k = .ok x ∧ ofEntry k x = s.promote k := by
  cases k <;> cases s <;> first | exact ⟨_, rfl, rfl⟩ | cases h

/-- A scalar can be lifted exactly into the kinds that its own kind is within. -/
theorem exists_toEntry_iff {s : Scalar α} {k : Kind} :
    (∃ x, s.toEntry k = .ok x) ↔ s.kind.Within k := by
  constructor
  · intro h
    obtain ⟨x, hx⟩ := h
    cases k <;> cases s <;> first | rfl | cases hx
  · intro h
    obtain ⟨x, hx, -⟩ := exists_toEntry h
    exact ⟨x, hx⟩

theorem kind_promote {s : Scalar α} {k : Kind} (h : s.kind.Within k) : (s.promote k).kind = k := by
  cases k <;> cases s <;> first | rfl | cases h

end Scalar

/-! ## Well-formed expressions -/

namespace Matrix

/-- Rows, columns and entries there are. -/
structure Occupied (m : Matrix β) : Prop where
  ne_nil : m.entries ≠ []
  rows_pos : 0 < m.rows
  cols_pos : 0 < m.cols

/-- What the check of a matrix comes to: it is empty, or has the right number of entries, which are
then checked, or a wrong number of them. -/
theorem check_cases (f : β → Except Error Unit) (m : Matrix β) :
    ¬m.Occupied ∧ m.check f = .error .emptyMatrix ∨
    m.Occupied ∧ m.entries.length = m.rows * m.cols ∧ m.check f = m.entries.forM f ∨
    m.Occupied ∧ m.entries.length ≠ m.rows * m.cols ∧ m.check f = .error (.raggedRow
      (min m.entries.length (m.rows * m.cols) / m.cols) m.cols
      (m.entries.length - min m.entries.length (m.rows * m.cols) / m.cols * m.cols)) := by
  unfold check
  simp only [Bool.or_eq_true, decide_eq_true_eq, List.isEmpty_iff]
  split
  next hempty =>
    refine .inl ⟨fun h => ?_, rfl⟩
    rcases hempty with (h0 | h0) | h0
    · exact h.ne_nil h0
    · exact h.rows_pos.ne' h0
    · exact h.cols_pos.ne' h0
  next hne =>
    simp only [not_or] at hne
    have hoccupied : m.Occupied :=
      ⟨hne.1.1, Nat.pos_of_ne_zero hne.1.2, Nat.pos_of_ne_zero hne.2⟩
    split
    next hlen => exact .inr (.inl ⟨hoccupied, hlen, rfl⟩)
    next hlen => exact .inr (.inr ⟨hoccupied, hlen, rfl⟩)

theorem check_eq_ok {f : β → Except Error Unit} {m : Matrix β} :
    m.check f = .ok () ↔ m.Occupied ∧ m.entries.length = m.rows * m.cols ∧
      ∀ x ∈ m.entries, f x = .ok () := by
  rcases m.check_cases f with ⟨hempty, h⟩ | ⟨hoccupied, hlen, h⟩ | ⟨-, hlen, h⟩
  · rw [h]
    exact ⟨nofun, fun h => absurd h.1 hempty⟩
  · rw [h, forM_eq_ok, and_iff_right hoccupied, and_iff_right hlen]
  · rw [h]
    exact ⟨nofun, fun h => absurd h.2.1 hlen⟩

end Matrix

/-- As many elements as the shape asks for, at least one, and every element well-formed with
identifiers in `P`. -/
structure Expression.FactorsIn [One α] (P : VariableId → Prop) (e : Expression α) : Prop where
  length_eq : e.elements.length = e.dims.size
  ne_nil : e.elements ≠ []
  each : ∀ s ∈ e.elements, s.FactorsIn P

namespace Expression

/-- Every element has a row and a column. -/
theorem FactorsIn.exists_position [One α] {e : Expression α} (he : e.FactorsIn P) {s : Scalar α}
    (hs : s ∈ e.elements) :
    ∃ i < e.dims.rows, ∃ j < e.dims.cols, e.elements[i * e.dims.cols + j]? = some s := by
  obtain ⟨k, hk, rfl⟩ := List.mem_iff_getElem.mp hs
  have hposition := Shape.position_lt (he.length_eq ▸ hk)
  refine ⟨_, hposition.1, _, hposition.2, ?_⟩
  rw [Nat.div_add_mod', List.getElem?_eq_getElem hk]

theorem length_elements_vector (k : Kind) (c : Column (k.Entry α)) :
    (vector k c).elements.length = (vector k c).dims.size := by
  simp [elements, dims, Column.shape, Column.size, Shape.column, Shape.size]

/-- All elements of an expression are of its kind. -/
theorem kind_of_mem_elements {e : Expression α} {s : Scalar α} (hs : s ∈ e.elements) :
    s.kind = e.kind := by
  cases e with
  | scalar t => exact congrArg Scalar.kind (List.mem_singleton.mp hs)
  | vector k c =>
    obtain ⟨x, -, rfl⟩ := List.mem_map.mp hs
    exact Scalar.kind_ofEntry k x
  | matrix k m =>
    obtain ⟨x, -, rfl⟩ := List.mem_map.mp hs
    exact Scalar.kind_ofEntry k x

theorem isScalar_iff {e : Expression α} : e.isScalar = true ↔ e.form = .scalar := by
  simp [isScalar]

theorem dims_of_scalar {e : Expression α} (h : e.form = .scalar) : e.dims = .scalar := by
  cases e with
  | scalar s => rfl
  | vector k c => cases h
  | matrix k m => cases h

theorem cols_of_vector {e : Expression α} (h : e.form = .vector) : e.dims.cols = 1 := by
  cases e with
  | scalar s => cases h
  | vector k c => rfl
  | matrix k m => cases h

theorem at?_eq_ok {e : Expression α} {i j : Nat} {s : Scalar α} :
    e.at? i j = .ok s ↔
      i < e.dims.rows ∧ j < e.dims.cols ∧ e.elements[i * e.dims.cols + j]? = some s := by
  unfold at?
  split
  next h => rw [Attempt.read_eq_ok, ← and_assoc, and_iff_right h]
  next h => exact ⟨fun hs => absurd hs Attempt.refuse_ne_ok, fun hs => absurd ⟨hs.1, hs.2.1⟩ h⟩

/-- There is an element at every position of the shape. -/
theorem exists_at? {e : Expression α} (he : e.elements.length = e.dims.size) {i j : Nat}
    (hi : i < e.dims.rows) (hj : j < e.dims.cols) : ∃ s, e.at? i j = .ok s := by
  have hplace : i * e.dims.cols + j < e.elements.length := he ▸ Shape.place_lt hi hj
  exact ⟨_, at?_eq_ok.mpr ⟨hi, hj, List.getElem?_eq_getElem hplace⟩⟩

/-- The element for a place by rows is at its row and column. -/
theorem at?_of_getElem? {e : Expression α} (he : e.elements.length = e.dims.size) {k : Nat}
    {s : Scalar α} (hs : e.elements[k]? = some s) :
    e.at? (k / e.dims.cols) (k % e.dims.cols) = .ok s := by
  have hk : k < e.dims.size := he ▸ (List.getElem?_eq_some_iff.mp hs).1
  obtain ⟨hi, hj⟩ := Shape.position_lt hk
  rw [at?_eq_ok, Nat.div_add_mod']
  exact ⟨hi, hj, hs⟩

variable [One α]

theorem FactorsIn.mono {e : Expression α} (he : e.FactorsIn P) (h : ∀ id, P id → Q id) :
    e.FactorsIn Q :=
  ⟨he.length_eq, he.ne_nil, fun s hs => (he.each s hs).mono h⟩

theorem factorsIn_scalar {s : Scalar α} : (scalar s).FactorsIn P ↔ s.FactorsIn P := by
  refine ⟨fun h => h.each s List.mem_cons_self, fun h => ⟨rfl, List.cons_ne_nil _ _, ?_⟩⟩
  intro t ht
  rw [List.mem_singleton.mp ht]
  exact h

theorem forM_checkEntry {k : Kind} {xs : List (k.Entry α)} :
    xs.forM k.checkEntry = .ok () ↔
      ∀ s ∈ xs.map (Scalar.ofEntry k), s.FactorsIn (fun id => id.isDefined = true) := by
  rw [forM_eq_ok, List.forall_mem_map]
  exact forall₂_congr fun x _ => Scalar.check_eq_ok

/-- A check finds out whether an expression is well-formed with defined variables. -/
theorem check_eq_ok {e : Expression α} :
    e.check = .ok () ↔ e.FactorsIn (fun id => id.isDefined = true) := by
  cases e with
  | scalar s => exact Scalar.check_eq_ok.trans factorsIn_scalar.symm
  | vector k c =>
    have hlen := length_elements_vector k c
    rw [check, Column.check]
    split
    next hempty =>
      refine ⟨nofun, fun h => absurd ?_ h.ne_nil⟩
      rw [elements, List.isEmpty_iff.mp hempty, List.map_nil]
    next hne =>
      rw [forM_checkEntry]
      refine ⟨fun h => ⟨hlen, ?_, h⟩, fun h => h.each⟩
      intro hnil
      exact hne (List.isEmpty_iff.mpr (List.map_eq_nil_iff.mp hnil))
  | matrix k m =>
    rw [check, Matrix.check_eq_ok, ← forM_eq_ok, forM_checkEntry]
    constructor
    · intro h
      obtain ⟨hoccupied, hlen, heach⟩ := h
      refine ⟨(List.length_map _).trans hlen, fun hnil => ?_, heach⟩
      exact hoccupied.ne_nil (List.map_eq_nil_iff.mp hnil)
    · intro h
      have hne : m.entries ≠ [] := fun hnil => h.ne_nil (List.map_eq_nil_iff.mpr hnil)
      have hlen : m.entries.length = m.rows * m.cols := (List.length_map _).symm.trans h.length_eq
      -- without rows or columns there would be no entries either
      have hsize : 0 < m.rows * m.cols := hlen ▸ List.length_pos_iff.mpr hne
      exact ⟨⟨hne, Nat.pos_of_mul_pos_right hsize, Nat.pos_of_mul_pos_left hsize⟩, hlen, h.each⟩

end Expression

/-! ## Typing a grid -/

namespace Grid

/-- As many elements as the shape asks for, a scalar in the shape of a scalar, a vector in that of a
column. -/
structure Fits (g : Grid α) : Prop where
  length_eq : g.elements.length = g.shape.size
  shape_scalar : g.form = .scalar → g.shape = .scalar
  cols_vector : g.form = .vector → g.shape.cols = 1

/-- As many elements as an expression has fit its form and shape. -/
theorem fits_of_length {e : Expression α} (he : e.elements.length = e.dims.size)
    {es : List (Scalar α)} (h : es.length = e.elements.length) : Fits ⟨e.form, e.dims, es⟩ :=
  ⟨h.trans he, Expression.dims_of_scalar, Expression.cols_of_vector⟩

theorem fits_ofExpression {e : Expression α} (h : e.elements.length = e.dims.size) :
    (ofExpression e).Fits :=
  fits_of_length h rfl

theorem Fits.map {g : Grid α} (hg : g.Fits) (f : Scalar α → Scalar α) : (g.map f).Fits :=
  ⟨(List.length_map _).trans hg.length_eq, hg.shape_scalar, hg.cols_vector⟩

section Typing

variable [One α]

/-- The expression has the form, the shape and the elements of the grid, lifted into one kind. -/
structure IsTyped (g : Grid α) (e : Expression α) : Prop where
  form_eq : e.form = g.form
  dims_eq : e.dims = g.shape
  elements_eq : e.elements = g.elements.map (·.promote g.kind)

theorem exists_entries (g : Grid α) :
    ∃ xs, g.elements.mapM (Scalar.toEntry g.kind) = .ok xs ∧
      xs.map (Scalar.ofEntry g.kind) = g.elements.map (·.promote g.kind) := by
  have h : ∀ {ss : List (Scalar α)}, (∀ s ∈ ss, s.kind.Within g.kind) →
      ∃ xs, ss.mapM (Scalar.toEntry g.kind) = .ok xs ∧
        xs.map (Scalar.ofEntry g.kind) = ss.map (·.promote g.kind) := by
    intro ss
    induction ss with
    | nil => intro _; exact ⟨[], rfl, rfl⟩
    | cons s ss ih =>
      intro hss
      obtain ⟨x, hx, hxs⟩ := Scalar.exists_toEntry (hss s List.mem_cons_self)
      obtain ⟨xs, hmap, heq⟩ := ih fun t ht => hss t (List.mem_cons_of_mem _ ht)
      refine ⟨x :: xs, mapM_eq_ok.mpr (.cons hx (mapM_eq_ok.mp hmap)), ?_⟩
      rw [List.map_cons, List.map_cons, hxs, heq]
  exact h fun s hs => Kind.within_joinAll (List.mem_map_of_mem hs)

/-- **Typing a grid never fails.** -/
theorem exists_toExpression {g : Grid α} (hg : g.Fits) :
    ∃ e, g.toExpression = .ok e ∧ g.IsTyped e := by
  obtain ⟨xs, hxs, hmap⟩ := g.exists_entries
  have hlen : xs.length = g.shape.size := by
    rw [← hg.length_eq, ← List.length_map (Scalar.ofEntry g.kind), hmap, List.length_map]
  rw [toExpression]
  split
  next hform =>
    -- a scalar has the kind of its one element, so it is not lifted
    have hshape := hg.shape_scalar hform
    have hone : g.elements.length = 1 := by rw [hg.length_eq, hshape]; rfl
    obtain ⟨s, hs⟩ := List.length_eq_one_iff.mp hone
    have hkind : g.kind = s.kind := by rw [kind, hs]; rfl
    rw [hs]
    refine ⟨.scalar s, rfl, hform.symm, hshape.symm, ?_⟩
    rw [hs, hkind, List.map_singleton, Scalar.promote_kind]
    rfl
  next hform =>
    have hshape : Shape.column xs.length = g.shape := by
      have hcols := hg.cols_vector hform
      rw [hlen, Shape.size, hcols, Nat.mul_one, Shape.column, ← hcols]
    exact ⟨.vector g.kind ⟨xs⟩, by rw [hxs]; rfl, hform.symm, hshape, hmap⟩
  next hform =>
    exact ⟨.matrix g.kind ⟨g.shape.rows, g.shape.cols, xs⟩, by rw [hxs]; rfl, hform.symm, rfl, hmap⟩

theorem isTyped_of_toExpression {g : Grid α} (hg : g.Fits) {e : Expression α}
    (h : g.toExpression = .ok e) : g.IsTyped e := by
  obtain ⟨e', he', htyped⟩ := exists_toExpression hg
  rw [h] at he'
  cases he'
  exact htyped

theorem IsTyped.length_eq {g : Grid α} {e : Expression α} (h : g.IsTyped e) :
    e.elements.length = g.elements.length := by
  rw [h.elements_eq, List.length_map]

/-- A typed grid that is not empty has the kind of the grid. -/
theorem IsTyped.kind_eq {g : Grid α} {e : Expression α} (h : g.IsTyped e) (hne : g.elements ≠ []) :
    e.kind = g.kind := by
  obtain ⟨s, hs⟩ := List.exists_mem_of_ne_nil _ hne
  have hmem : s.promote g.kind ∈ e.elements := by
    rw [h.elements_eq]
    exact List.mem_map_of_mem hs
  rw [← Expression.kind_of_mem_elements hmem]
  exact Scalar.kind_promote (Kind.within_joinAll (List.mem_map_of_mem hs))

/-- Every element of the grid is there, up to its kind. -/
theorem IsTyped.exists_getElem? {g : Grid α} {e : Expression α} (h : g.IsTyped e) {i : Nat}
    {s : Scalar α} (hs : g.elements[i]? = some s) :
    ∃ t, e.elements[i]? = some t ∧ t.toMonomials = s.toMonomials := by
  refine ⟨s.promote g.kind, ?_, s.toMonomials_promote g.kind⟩
  rw [h.elements_eq, List.getElem?_map, hs]
  rfl

/-- Where every element is replaced, so is the one at a position, up to its kind. -/
theorem IsTyped.exists_at?_map {e d : Expression α} {f : Scalar α → Scalar α}
    (h : ((ofExpression e).map f).IsTyped d) {i j : Nat} {a : Scalar α}
    (ha : e.at? i j = .ok a) : ∃ b, d.at? i j = .ok b ∧ b.toMonomials = (f a).toMonomials := by
  obtain ⟨hi, hj, hget⟩ := Expression.at?_eq_ok.mp ha
  have hdims : d.dims = e.dims := h.dims_eq
  have hplace : ((ofExpression e).map f).elements[i * e.dims.cols + j]? = some (f a) := by
    show (e.elements.map f)[i * e.dims.cols + j]? = _
    rw [List.getElem?_map, hget]
    rfl
  obtain ⟨b, hb, hterms⟩ := h.exists_getElem? hplace
  exact ⟨b, Expression.at?_eq_ok.mpr ⟨hdims ▸ hi, hdims ▸ hj, hdims ▸ hb⟩, hterms⟩

/-- Typing keeps every element well-formed. -/
theorem IsTyped.factorsIn {g : Grid α} {e : Expression α} (h : g.IsTyped e) (hg : g.Fits)
    (hne : g.elements ≠ []) (hin : ∀ s ∈ g.elements, s.FactorsIn P) : e.FactorsIn P := by
  refine ⟨by rw [h.length_eq, hg.length_eq, h.dims_eq], ?_, ?_⟩
  · rw [h.elements_eq]
    exact fun hnil => hne (List.map_eq_nil_iff.mp hnil)
  · rw [h.elements_eq]
    intro t ht
    obtain ⟨s, hs, rfl⟩ := List.mem_map.mp ht
    rw [Scalar.FactorsIn, Scalar.toMonomials_promote]
    exact hin s hs

end Typing

/-! ## Elements over a common shape -/

/-- A walk that finds an answer for every element keeps form and shape. -/
theorem mapM?_eq_some {f : Scalar α → Option (Scalar α)} {g h : Grid α} :
    g.mapM? f = some h ↔ h.form = g.form ∧ h.shape = g.shape ∧
      List.Forall₂ (fun s t => f s = some t) g.elements h.elements := by
  unfold mapM?
  rw [Option.bind_eq_bind, Option.bind_eq_some_iff]
  simp only [mapM_eq_some]
  constructor
  · intro h
    obtain ⟨ts, hts, hh⟩ := h
    cases hh
    exact ⟨rfl, rfl, hts⟩
  · intro h
    obtain ⟨hform, hshape, hts⟩ := h
    refine ⟨h.elements, hts, ?_⟩
    rw [← hform, ← hshape]
    rfl

theorem Fits.mapM? {f : Scalar α → Option (Scalar α)} {g h : Grid α} (hg : g.Fits)
    (hh : g.mapM? f = some h) : h.Fits := by
  obtain ⟨hform, hshape, hts⟩ := mapM?_eq_some.mp hh
  refine ⟨?_, fun hs => ?_, fun hv => ?_⟩
  · rw [← hts.length_eq, hg.length_eq, hshape]
  · rw [hshape, hg.shape_scalar (hform ▸ hs)]
  · rw [hshape, hg.cols_vector (hform ▸ hv)]

/-- The element for a place, which for a scalar is always its one element. -/
def spread? (g : Grid α) (i : Nat) : Option (Scalar α) :=
  if g.form = .scalar then g.elements[0]? else g.elements[i]?

theorem broadcast?_eq (g : Grid α) (i : Nat) :
    broadcast? g.form g.elements.toArray i = g.spread? i := by
  simp [broadcast?, spread?]

theorem mem_of_spread? {g : Grid α} {i : Nat} {s : Scalar α} (h : g.spread? i = some s) :
    s ∈ g.elements := by
  unfold spread? at h
  split at h <;> exact List.mem_of_getElem? h

theorem spread?_mapM? {f : Scalar α → Option (Scalar α)} {g h : Grid α} (hh : g.mapM? f = some h)
    {i : Nat} {t : Scalar α} (ht : h.spread? i = some t) :
    ∃ s, g.spread? i = some s ∧ f s = some t := by
  obtain ⟨hform, -, hts⟩ := mapM?_eq_some.mp hh
  have hplace : ∀ k : Nat, h.elements[k]? = some t →
      ∃ s, g.elements[k]? = some s ∧ f s = some t := by
    intro k hk
    obtain ⟨hlt, rfl⟩ := List.getElem?_eq_some_iff.mp hk
    have hlt' : k < g.elements.length := hts.length_eq ▸ hlt
    exact ⟨_, List.getElem?_eq_getElem hlt', hts.get hlt' hlt⟩
  unfold spread? at ht ⊢
  rw [hform] at ht
  split at ht
  next hs => rw [if_pos hs]; exact hplace 0 ht
  next hs => rw [if_neg hs]; exact hplace i ht

/-- A grid that is a scalar or has the given shape has an element for every place. -/
theorem Fits.exists_spread? {g : Grid α} (hg : g.Fits) {shape : Shape}
    (hshape : g.form = .scalar ∨ shape = g.shape) {i : Nat} (hi : i < shape.size) :
    ∃ s, g.spread? i = some s := by
  unfold spread?
  split
  next hform =>
    have hlen : 0 < g.elements.length := by
      rw [hg.length_eq, hg.shape_scalar hform]
      exact Nat.one_pos
    exact ⟨_, List.getElem?_eq_getElem hlen⟩
  next hform =>
    have hlen : i < g.elements.length := by
      rw [hg.length_eq, ← hshape.resolve_left hform]
      exact hi
    exact ⟨_, List.getElem?_eq_getElem hlen⟩

/-- A scalar has its element everywhere. -/
theorem Fits.spread?_of_scalar {g : Grid α} (hg : g.Fits) (hform : g.form = .scalar)
    {a : Scalar α} (ha : a ∈ g.elements) (i : Nat) : g.spread? i = some a := by
  have hone : g.elements.length = 1 := by
    rw [hg.length_eq, hg.shape_scalar hform]
    rfl
  obtain ⟨s, hs⟩ := List.length_eq_one_iff.mp hone
  rw [hs, List.mem_singleton] at ha
  rw [spread?, if_pos hform, hs, ha]
  rfl

/-- Every element has a place in a shape that is not empty. -/
theorem Fits.exists_place {g : Grid α} (hg : g.Fits) {shape : Shape}
    (hshape : g.form = .scalar ∨ shape = g.shape) (hpos : 0 < shape.size) {a : Scalar α}
    (ha : a ∈ g.elements) : ∃ i < shape.size, g.spread? i = some a := by
  by_cases hform : g.form = .scalar
  · exact ⟨0, hpos, hg.spread?_of_scalar hform ha 0⟩
  · obtain ⟨i, hi, rfl⟩ := List.getElem_of_mem ha
    refine ⟨i, ?_, (if_neg hform).trans (List.getElem?_eq_getElem hi)⟩
    rw [hshape.resolve_left hform, ← hg.length_eq]
    exact hi

/-- Within the shape of a grid the element for a place is the one at it. -/
theorem Fits.spread?_eq {g : Grid α} (hg : g.Fits) {i : Nat} (hi : i < g.shape.size) :
    g.spread? i = g.elements[i]? := by
  unfold spread?
  split
  next hform =>
    rw [hg.shape_scalar hform] at hi
    rw [Nat.lt_one_iff.mp hi]
  next => rfl

theorem pairs?_eq_some {l r : Grid α} {n : Nat} {ps : List (Scalar α × Scalar α)} :
    l.pairs? r n = some ps ↔
      List.Forall₂ (fun i ab => l.spread? i = some ab.1 ∧ r.spread? i = some ab.2)
        (List.range n) ps := by
  have hplace : ∀ (i : Nat) (ab : Scalar α × Scalar α),
      (do
        let a ← broadcast? l.form l.elements.toArray i
        let b ← broadcast? r.form r.elements.toArray i
        return (a, b)) = some ab ↔ l.spread? i = some ab.1 ∧ r.spread? i = some ab.2 := by
    intro i ab
    rw [broadcast?_eq, broadcast?_eq]
    cases l.spread? i <;> cases r.spread? i <;> simp [Prod.ext_iff]
  unfold pairs?
  simp only [mapM_eq_some, hplace]

/-- The pair for a place has the elements for that place. -/
theorem spread?_of_pairs? {l r : Grid α} {n : Nat} {ps : List (Scalar α × Scalar α)}
    (h : l.pairs? r n = some ps) {k : Nat} {p : Scalar α × Scalar α} (hp : ps[k]? = some p) :
    l.spread? k = some p.1 ∧ r.spread? k = some p.2 := by
  obtain ⟨hk, rfl⟩ := List.getElem?_eq_some_iff.mp hp
  have hpairs := pairs?_eq_some.mp h
  have hplace := hpairs.get (hpairs.length_eq ▸ hk) hk
  rw [List.get_eq_getElem, List.getElem_range] at hplace
  exact hplace

/-- There is a pair for every place, of an element of either grid. -/
theorem mem_of_pairs? {l r : Grid α} {n : Nat} {ps : List (Scalar α × Scalar α)}
    (h : l.pairs? r n = some ps) :
    ps.length = n ∧ ∀ p ∈ ps, p.1 ∈ l.elements ∧ p.2 ∈ r.elements := by
  refine ⟨by rw [← (pairs?_eq_some.mp h).length_eq, List.length_range], fun p hp => ?_⟩
  obtain ⟨i, hi⟩ := List.getElem?_of_mem hp
  obtain ⟨hpl, hpr⟩ := spread?_of_pairs? h hi
  exact ⟨mem_of_spread? hpl, mem_of_spread? hpr⟩

theorem exists_pairs? {l r : Grid α} (hl : l.Fits) (hr : r.Fits) {shape : Shape}
    (hsl : l.form = .scalar ∨ shape = l.shape) (hsr : r.form = .scalar ∨ shape = r.shape) :
    ∃ ps, l.pairs? r shape.size = some ps := by
  have hplace : ∀ i ∈ List.range shape.size,
      ∃ ab : Scalar α × Scalar α, l.spread? i = some ab.1 ∧ r.spread? i = some ab.2 := by
    intro i hi
    obtain ⟨a, ha⟩ := hl.exists_spread? hsl (List.mem_range.mp hi)
    obtain ⟨b, hb⟩ := hr.exists_spread? hsr (List.mem_range.mp hi)
    exact ⟨(a, b), ha, hb⟩
  obtain ⟨ps, hps⟩ := exists_forall₂ hplace
  exact ⟨ps, pairs?_eq_some.mpr hps⟩

/-- A scalar on the right is paired with every element. -/
theorem Fits.pairs?_scalar {g : Grid α} (hg : g.Fits) (c : Scalar α) :
    g.pairs? (ofExpression (.scalar c)) g.shape.size = some (g.elements.map fun a => (a, c)) := by
  rw [pairs?_eq_some, List.forall₂_iff_get]
  refine ⟨by rw [List.length_range, List.length_map, hg.length_eq], fun i hi hi' => ?_⟩
  rw [List.length_range] at hi
  have hlt : i < g.elements.length := hg.length_eq ▸ hi
  rw [List.get_eq_getElem, List.get_eq_getElem, List.getElem_range, List.getElem_map]
  exact ⟨(hg.spread?_eq hi).trans (List.getElem?_eq_getElem hlt), rfl⟩

/-- Grids of one length, neither a scalar, are paired place by place. -/
theorem pairs?_of_elements {l r : Grid α} {xs : List β} {f g : β → Scalar α}
    (hl : l.form ≠ .scalar) (hr : r.form ≠ .scalar) (hls : l.elements = xs.map f)
    (hrs : r.elements = xs.map g) :
    l.pairs? r xs.length = some (xs.map fun x => (f x, g x)) := by
  rw [pairs?_eq_some, List.forall₂_iff_get]
  refine ⟨by rw [List.length_range, List.length_map], fun i hi hx => ?_⟩
  rw [List.length_map] at hx
  simp [spread?, hl, hr, hls, hrs, hx]

/-! ## Combining two grids -/

/-- Form and shape of an elementwise result: those of the operand that is no scalar, if any. -/
structure IsLayout (l r : Grid α) (form : Form) (shape : Shape) : Prop where
  shape_eq : shape = if l.form = .scalar then r.shape else l.shape
  left : l.form = .scalar ∨ shape = l.shape
  right : r.form = .scalar ∨ shape = r.shape
  shape_scalar : form = .scalar → shape = .scalar
  cols_vector : form = .vector → shape.cols = 1

theorem ensures_refuseShapes {R : β → Prop} (op : Operation) (l r : Grid α) :
    Ensures (refuseShapes op l r : Traced β).outcome R :=
  Attempt.ensures_refuse _

theorem ensures_layout {op : Operation} {l r : Grid α} (hl : l.Fits) (hr : r.Fits) :
    Ensures (layout op l r).outcome fun fs => IsLayout l r fs.1 fs.2 := by
  unfold layout
  split
  next hlf hrf =>
    refine Attempt.ensures_ok ⟨?_, .inl hlf, .inl hrf, fun _ => rfl, fun _ => rfl⟩
    rw [if_pos hlf, hr.shape_scalar hrf]
  next hlf hrf =>
    exact Attempt.ensures_ok
      ⟨(if_pos hlf).symm, .inl hlf, .inr rfl, hr.shape_scalar, hr.cols_vector⟩
  next hrf hlf =>
    exact Attempt.ensures_ok
      ⟨(if_neg hlf).symm, .inr rfl, .inl hrf, hl.shape_scalar, hl.cols_vector⟩
  next hlf _ _ =>
    -- no scalar: the shapes agree, and a vector on either side makes it a vector
    split
    next hshape =>
      refine Attempt.ensures_ok
        ⟨(if_neg hlf).symm, .inr rfl, .inr hshape, fun hs => ?_, fun hv => ?_⟩
      · split at hs <;> cases hs
      · split at hv
        next hor => exact hor.elim hl.cols_vector fun hrv => hshape ▸ hr.cols_vector hrv
        next => cases hv
    next => exact ensures_refuseShapes op l r

/-- The expression holds at every place what the function makes of the two elements for that place,
up to its kind. -/
structure Combines [One α] (f : Scalar α → Scalar α → Option (Scalar α)) (l r : Grid α)
    (e : Expression α) : Prop where
  length_eq : e.elements.length = e.dims.size
  dims_eq : e.dims = if l.form = .scalar then r.shape else l.shape
  left : l.form = .scalar ∨ e.dims = l.shape
  right : r.form = .scalar ∨ e.dims = r.shape
  element : ∀ i < e.dims.size, ∃ a b s t, l.spread? i = some a ∧ r.spread? i = some b ∧
    f a b = some s ∧ e.elements[i]? = some t ∧ t.toMonomials = s.toMonomials

theorem combines_of_combine [One α] {op : Operation}
    {f : Scalar α → Scalar α → Option (Scalar α)} {l r : Grid α} (hl : l.Fits) (hr : r.Fits)
    {e : Expression α} (h : (combine op f l r).outcome = .ok e) : Combines f l r e := by
  unfold combine at h
  simp only [Traced.outcome_bind, Traced.outcome_quiet, bind_eq_ok, Attempt.read_eq_ok,
    Attempt.checked_eq_ok] at h
  obtain ⟨⟨form, shape⟩, hlayout, ps, hps, es, hes, he⟩ := h
  have hlay := (ensures_layout hl hr).value _ hlayout
  rw [pairs?_eq_some] at hps
  rw [mapM_eq_some] at hes
  have hlen : es.length = shape.size := by
    rw [← hes.length_eq, ← hps.length_eq, List.length_range]
  have htyped := isTyped_of_toExpression ⟨hlen, hlay.shape_scalar, hlay.cols_vector⟩ he
  have hdims : e.dims = shape := htyped.dims_eq
  subst hdims
  refine ⟨htyped.length_eq.trans hlen, hlay.shape_eq, hlay.left, hlay.right, ?_⟩
  -- read one place off the pairs, the results and the typed elements
  intro i hi
  have hip : i < ps.length := by rw [← hps.length_eq, List.length_range]; exact hi
  have hie : i < es.length := hlen ▸ hi
  obtain ⟨ha, hb⟩ := hps.get (List.length_range.symm ▸ hi) hip
  have hf := hes.get hip hie
  simp only [List.get_eq_getElem, List.getElem_range] at ha hb hf
  obtain ⟨t, ht, hterms⟩ := htyped.exists_getElem? (List.getElem?_eq_getElem hie)
  exact ⟨_, _, _, t, ha, hb, hf, ht, hterms⟩

section Combines

variable [One α] {f : Scalar α → Scalar α → Option (Scalar α)} {l r : Grid α} {e : Expression α}

/-- An element of a combination has the terms of what the function makes of two elements. -/
theorem Combines.exists_of_mem (h : Combines f l r e) {t : Scalar α} (ht : t ∈ e.elements) :
    ∃ a ∈ l.elements, ∃ b ∈ r.elements, ∃ s, f a b = some s ∧ t.toMonomials = s.toMonomials := by
  obtain ⟨i, hi, rfl⟩ := List.getElem_of_mem ht
  obtain ⟨a, b, s, u, ha, hb, hs, hu, hterms⟩ := h.element i (h.length_eq ▸ hi)
  rw [List.getElem?_eq_getElem hi, Option.some_inj] at hu
  exact ⟨a, mem_of_spread? ha, b, mem_of_spread? hb, s, hs, hu ▸ hterms⟩

/-- What the function keeps, the combination keeps. -/
theorem Combines.factorsIn (h : Combines f l r e) (hne : e.dims.size ≠ 0)
    (hf : ∀ a ∈ l.elements, ∀ b ∈ r.elements, ∀ s, f a b = some s → s.FactorsIn P) :
    e.FactorsIn P := by
  refine ⟨h.length_eq, fun hnil => hne ?_, fun t ht => ?_⟩
  · rw [← h.length_eq, hnil, List.length_nil]
  · obtain ⟨a, ha, b, hb, s, hs, hterms⟩ := h.exists_of_mem ht
    rw [Scalar.FactorsIn, hterms]
    exact hf a ha b hb s hs

/-- What the function makes of the two elements for a place are the terms of an element. -/
theorem Combines.exists_at (h : Combines f l r e) {i : Nat} (hi : i < e.dims.size) {a b : Scalar α}
    (ha : l.spread? i = some a) (hb : r.spread? i = some b) :
    ∃ s, f a b = some s ∧ ∃ t ∈ e.elements, t.toMonomials = s.toMonomials := by
  obtain ⟨a', b', s, t, ha', hb', hs, ht, hterms⟩ := h.element i hi
  obtain rfl : a' = a := Option.some.inj (ha'.symm.trans ha)
  obtain rfl : b' = b := Option.some.inj (hb'.symm.trans hb)
  exact ⟨s, hs, t, List.mem_of_getElem? ht, hterms⟩

section Places

variable (h : Combines f l r e) (hl : l.Fits) (hr : r.Fits) (hpos : 0 < e.dims.size)
include h hl hr hpos

/-- Every element on the left meets one on the right. -/
theorem Combines.exists_of_left {a : Scalar α} (ha : a ∈ l.elements) :
    ∃ b ∈ r.elements, ∃ s, f a b = some s ∧ ∃ t ∈ e.elements, t.toMonomials = s.toMonomials := by
  obtain ⟨i, hi, hai⟩ := hl.exists_place h.left hpos ha
  obtain ⟨b, hbi⟩ := hr.exists_spread? h.right hi
  exact ⟨b, mem_of_spread? hbi, h.exists_at hi hai hbi⟩

/-- Every element on the right meets one on the left. -/
theorem Combines.exists_of_right {b : Scalar α} (hb : b ∈ r.elements) :
    ∃ a ∈ l.elements, ∃ s, f a b = some s ∧ ∃ t ∈ e.elements, t.toMonomials = s.toMonomials := by
  obtain ⟨i, hi, hbi⟩ := hr.exists_place h.right hpos hb
  obtain ⟨a, hai⟩ := hl.exists_spread? h.left hi
  exact ⟨a, mem_of_spread? hai, h.exists_at hi hai hbi⟩

/-- A scalar meets every element of the other grid. -/
theorem Combines.exists_of_scalar (hscalar : l.form = .scalar ∨ r.form = .scalar) {a b : Scalar α}
    (ha : a ∈ l.elements) (hb : b ∈ r.elements) :
    ∃ s, f a b = some s ∧ ∃ t ∈ e.elements, t.toMonomials = s.toMonomials := by
  rcases hscalar with hlf | hrf
  · obtain ⟨i, hi, hbi⟩ := hr.exists_place h.right hpos hb
    exact h.exists_at hi (hl.spread?_of_scalar hlf ha i) hbi
  · obtain ⟨i, hi, hai⟩ := hl.exists_place h.left hpos ha
    exact h.exists_at hi hai (hr.spread?_of_scalar hrf hb i)

end Places

end Combines

/-- An answer found for the right element first can be found while combining. -/
theorem Combines.mapM?_right [One α] {f : Scalar α → Scalar α → Option (Scalar α)}
    {n : Scalar α → Option (Scalar α)} {l r g : Grid α} {e : Expression α} (h : Combines f l g e)
    (hg : r.mapM? n = some g) : Combines (fun a b => n b >>= f a) l r e := by
  obtain ⟨hform, hshape, -⟩ := mapM?_eq_some.mp hg
  refine ⟨h.length_eq, ?_, h.left, ?_, fun i hi => ?_⟩
  · rw [h.dims_eq, hshape]
  · rw [← hform, ← hshape]
    exact h.right
  · obtain ⟨a, c, s, t, ha, hc, hs, ht, hterms⟩ := h.element i hi
    obtain ⟨b, hb, hn⟩ := spread?_mapM? hg hc
    exact ⟨a, b, s, t, ha, hb, Option.bind_eq_some_iff.mpr ⟨c, hn, hs⟩, ht, hterms⟩

theorem Fits.layout_scalar {g : Grid α} (hg : g.Fits) (op : Operation) (c : Scalar α) :
    (layout op g (ofExpression (.scalar c))).outcome = .ok (g.form, g.shape) := by
  unfold layout
  split
  next hform _ => rw [hform, hg.shape_scalar hform]; rfl
  next hne => exact absurd rfl hne
  next => rfl
  next hne _ => exact absurd rfl hne

/-- A scalar on the right is combined with every element. -/
theorem Fits.combine_scalar [One α] {f : Scalar α → Scalar α → Option (Scalar α)} {g h : Grid α}
    (hg : g.Fits) {c : Scalar α} (hh : g.mapM? (f · c) = some h) (op : Operation) :
    (combine op f g (ofExpression (.scalar c))).outcome = Attempt.checked h.toExpression := by
  obtain ⟨hform, hshape, hanswers⟩ := mapM?_eq_some.mp hh
  have hwalk : ((g.elements.map fun a => (a, c)).mapM fun p => f p.1 p.2) = some h.elements := by
    rw [mapM_eq_some, List.forall₂_map_left_iff]
    exact hanswers
  rw [combine, Traced.outcome_bind, hg.layout_scalar op c]
  show Attempt.read (g.pairs? _ g.shape.size) >>= _ = _
  rw [hg.pairs?_scalar c]
  show Attempt.read (List.mapM _ _) >>= _ = _
  rw [hwalk, ← hform, ← hshape]
  rfl

end Grid

/-! ## Checked operands -/

namespace Expression

@[simp] theorem checkOperand_eq_ok {op : Operation} {side : Side} {e : Expression α} :
    (e.checkOperand op side).outcome = .ok () ↔ e.check = .ok () := by
  unfold checkOperand
  split
  next h => simp [h]
  next source h => simp [h]

theorem checkOperands_eq_ok {op : Operation} {l r : Expression α} :
    (checkOperands op l r).outcome = .ok () ↔ l.check = .ok () ∧ r.check = .ok () := by
  rw [checkOperands, Traced.outcome_bind, unit_bind_eq_ok, checkOperand_eq_ok, checkOperand_eq_ok]

end Expression

end DecisionAlgebra
