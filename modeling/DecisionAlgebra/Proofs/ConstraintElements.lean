import DecisionAlgebra.Proofs.RecordedShapes

/-!
# The elements of a constraint, two ways

The constraints between the elements of two sides can be had as a list, for which both sides are
flattened and a scalar is repeated, and one by one, for which each side is asked for its element at
a position. The two agree: what there is at a row and a column is in the list at the place of that
position by rows, it stands between the elements of the sides there, and outside of the recorded
shape there is nothing. Where a vector is compared with a matrix of one column, both sides have
their elements in that column, so the index of a vector is a row.
-/

namespace DecisionAlgebra

variable {α : Type}

/-- What a side contributes to a position: a scalar itself, anything else its element there. -/
def Expression.Contributes (side : Expression α) (row col : Nat) (s : Scalar α) : Prop :=
  if side.isScalar then side = .scalar s else side.at? row col = .ok s

namespace GridConstraint

/-- What there is at a row and a column: outside of the recorded shape the error that says so, and
inside of it the constraint that the list has at that place by rows, which stands between what the
sides contribute. -/
structure ReadsAt (c : GridConstraint α) (cs : List (ScalarConstraint α)) (row col : Nat)
    (x : Outcome (ScalarConstraint α)) : Prop where
  outside : x = Attempt.refuse (.indexOutOfBounds row col c.shape) ↔
    ¬(row < c.shape.rows ∧ col < c.shape.cols)
  inside : row < c.shape.rows → col < c.shape.cols → ∃ d, x = .ok d ∧
    cs[row * c.shape.cols + col]? = some d ∧ d.sense = c.sense ∧
    c.left.Contributes row col d.left ∧ c.right.Contributes row col d.right

theorem sideAt_eq_ok_iff {side : Expression α} {row col : Nat} {s : Scalar α} :
    sideAt side row col = .ok s ↔ side.Contributes row col s := by
  cases side with
  | scalar t =>
    have hone : sideAt (.scalar t) row col = .ok t := rfl
    rw [hone, Except.ok.injEq]
    exact (Expression.scalar.injEq t s).symm.to_iff
  | vector | matrix => rfl

theorem at?_eq_ok {c : GridConstraint α} {row col : Nat} {d : ScalarConstraint α} :
    c.at? row col = .ok d ↔ (row < c.shape.rows ∧ col < c.shape.cols) ∧ d.sense = c.sense ∧
      c.left.Contributes row col d.left ∧ c.right.Contributes row col d.right := by
  simp only [← sideAt_eq_ok_iff]
  unfold at?
  split
  next hin =>
    rw [and_iff_right hin]
    constructor
    · intro h
      obtain ⟨a, ha, h⟩ := bind_eq_ok.mp h
      obtain ⟨b, hb, h⟩ := bind_eq_ok.mp h
      cases h
      exact ⟨rfl, ha, hb⟩
    · intro h
      obtain ⟨hsense, ha, hb⟩ := h
      rw [ha, hb, ← hsense]
      rfl
  next hout => exact ⟨fun h => absurd h Attempt.refuse_ne_ok, fun h => absurd h.1 hout⟩

theorem readsAt {c : GridConstraint α} {cs : List (ScalarConstraint α)}
    (hl : c.fits c.left = true) (hr : c.fits c.right = true) (hcs : c.constraints? = some cs)
    (row col : Nat) : c.ReadsAt cs row col (c.at? row col) := by
  have hinside : row < c.shape.rows → col < c.shape.cols → ∃ d, c.at? row col = .ok d ∧
      cs[row * c.shape.cols + col]? = some d ∧ d.sense = c.sense ∧
      c.left.Contributes row col d.left ∧ c.right.Contributes row col d.right := by
    intro hrow hcol
    have hlen : cs.length = c.shape.size := Constraint.length_of_constraints? (c := .matrix c) hcs
    have hplace : row * c.shape.cols + col < cs.length := hlen ▸ Shape.place_lt hrow hcol
    have hget := List.getElem?_eq_getElem hplace
    have hat := at?_of_getElem? hl hr hcs hget
    rw [(Shape.position_of_place hcol).1, (Shape.position_of_place hcol).2] at hat
    exact ⟨_, hat, hget, (at?_eq_ok.mp hat).2⟩
  refine ⟨⟨fun hrefused hin => ?_, fun hout => if_neg hout⟩, hinside⟩
  obtain ⟨d, hd, -⟩ := hinside hin.1 hin.2
  exact Attempt.refuse_ne_ok (hrefused.symm.trans hd)

end GridConstraint

/-! ## Comparisons -/

namespace Expression

/-- A comparison keeps its operands and the sense. -/
theorem sides_of_compare {l r : Expression α} {sense : Sense} {c : Constraint α}
    (h : (l.compare r sense).outcome = .ok c) : c.left = l ∧ c.right = r ∧ c.sense = sense := by
  rw [compare, Traced.outcome_bind, unit_bind_eq_ok, Traced.outcome_bind, bind_eq_ok] at h
  obtain ⟨-, ⟨form, shape⟩, -, hc⟩ := h
  rw [Traced.outcome_quiet, Attempt.checked_eq_ok] at hc
  cases form with
  | vector | matrix =>
    cases hc
    exact ⟨rfl, rfl, rfl⟩
  | scalar =>
    obtain ⟨a, b, rfl, rfl, rfl⟩ := constraintOf_scalar hc
    exact ⟨rfl, rfl, rfl⟩

variable [Zero α] [One α] [Add α] [Neg α] [Mul α] [BEq α]

/-- **The elements of a comparison are indexed consistently.** A comparison over a vector or a
matrix keeps both sides and the sense, and lists a constraint for every place of the shape that it
records. At every row and column it has what the list has at that place, between what the sides
contribute, and nothing outside of the shape; over a vector, where the shape has one column, the
index is the row. -/
theorem compare_elements {l r : Expression α} {sense : Sense} {c : Constraint α}
    {g : GridConstraint α} (h : (l.compare r sense).outcome = .ok c)
    (hg : c = .vector g ∨ c = .matrix g) :
    g.left = l ∧ g.right = r ∧ g.sense = sense ∧
      ∃ cs, c.constraints? = some cs ∧ cs.length = g.shape.rows * g.shape.cols ∧
        (∀ row col, g.ReadsAt cs row col (g.at? row col)) ∧
        (c = .vector g → g.shape.cols = 1 ∧ ∀ row, g.ReadsAt cs row 0 (g.atIndex row)) := by
  obtain ⟨hleft, hright, hsense⟩ := sides_of_compare h
  obtain ⟨hc, -, -⟩ := (l.ensures_compare r sense).value c h
  have hshaped := Constraint.wellShaped_of_compare h
  obtain ⟨cs, hcs, hlen, -⟩ := Constraint.exists_elements hc
  rcases hg with rfl | rfl
  · obtain ⟨-, -, hfl, hfr⟩ := Constraint.gridCheck_eq_ok.mp hc
    have hreads := GridConstraint.readsAt hfl hfr hcs
    exact ⟨hleft, hright, hsense, cs, hcs, hlen, hreads,
      fun _ => ⟨hshaped.cols_eq rfl, fun row => hreads row 0⟩⟩
  · obtain ⟨-, -, hfl, hfr⟩ := Constraint.gridCheck_eq_ok.mp hc
    exact ⟨hleft, hright, hsense, cs, hcs, hlen, GridConstraint.readsAt hfl hfr hcs, nofun⟩

/-- A vector of `x` and `y` compared with a matrix of the column `1` and `2`: at index `1`, and
second in the list, `y` is at most `2`, and there is nothing at index `2`. -/
theorem compare_elements_column :
    let x : Variable ℤ := .numbered 0
    let y : Variable ℤ := .numbered 1
    let l : Expression ℤ := .vector .variable ⟨[x, y]⟩
    let r : Expression ℤ := .matrix .constant ⟨2, 1, [1, 2]⟩
    let g : GridConstraint ℤ := ⟨l, r, .lessEqual, ⟨2, 1⟩⟩
    let d : ScalarConstraint ℤ := ⟨.variable y, .lessEqual, .constant 2⟩
    (l.compare r .lessEqual).outcome = .ok (.vector g) ∧
      (∃ cs, g.constraints? = some cs ∧ cs.length = 2 ∧ cs[1]? = some d) ∧
      g.atIndex 1 = .ok d ∧ g.atIndex 2 = Attempt.refuse (.indexOutOfBounds 2 0 ⟨2, 1⟩) := by
  intro x y l r g d
  have h : (l.compare r .lessEqual).outcome = .ok (.vector g) := by cbv
  obtain ⟨-, -, -, cs, hcs, hlen, -, hindex⟩ := compare_elements h (.inl rfl)
  have hreads := (hindex rfl).2
  obtain ⟨d', hd', hget, -⟩ := (hreads 1).inside (by decide) (by decide)
  have hd : g.atIndex 1 = .ok d := rfl
  cases hd.symm.trans hd'
  exact ⟨h, ⟨cs, hcs, hlen, hget⟩, hd, (hreads 2).outside.mpr (by decide)⟩

end Expression

end DecisionAlgebra
