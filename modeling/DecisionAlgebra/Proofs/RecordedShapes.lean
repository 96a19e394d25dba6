import DecisionAlgebra.Proofs.Linear.Simplified

/-!
# Constraints and the shapes they record

The check of a constraint over a vector or a matrix compares the recorded shape with the sides. It
does not ask whether that is the shape of a vector or a matrix: a constraint over a vector may
record several columns, because a side may be a matrix, and where both sides are scalars any shape
passes, the empty one included. What else is expected of a valid constraint depends on this and on
nothing else. `WellShaped` says that the recorded shape is not empty and has one column over a
vector.

`recorded_shape`: a valid constraint has one element for every place of the recorded shape, whatever
that is. Exactly when it is well-shaped, it has an element at all, its length is the number of its
elements and its positions reach all of them; and exactly then it can be simplified to a constraint
that is valid. Comparisons only make well-shaped constraints.
-/

namespace DecisionAlgebra

variable {α : Type}

/-! ## Elements by position -/

namespace GridConstraint

/-- What a side has at a position is its element for that place, repeated if need be. -/
theorem sideAt_eq_ok {side : Expression α} {shape : Shape}
    (hside : side.form = .scalar ∨ shape = side.dims) {i j : Nat} (hi : i < shape.rows)
    (hj : j < shape.cols) {a : Scalar α}
    (ha : (Grid.ofExpression side).spread? (i * shape.cols + j) = some a) :
    sideAt side i j = .ok a := by
  unfold sideAt
  by_cases hform : side.form = .scalar
  · rw [if_pos (Expression.isScalar_iff.mpr hform), Expression.at?_eq_ok,
      Expression.dims_of_scalar hform]
    have hzero : side.elements[0]? = some a := (if_pos hform).symm.trans ha
    exact ⟨Nat.one_pos, Nat.one_pos, hzero⟩
  · have hshape := hside.resolve_left hform
    have hplace : side.elements[i * shape.cols + j]? = some a := (if_neg hform).symm.trans ha
    rw [if_neg fun h => hform (Expression.isScalar_iff.mp h), Expression.at?_eq_ok, ← hshape]
    exact ⟨hi, hj, hplace⟩

/-- The element at a place by rows is at its row and column. -/
theorem at?_of_getElem? {c : GridConstraint α} {cs : List (ScalarConstraint α)}
    (hl : c.fits c.left = true) (hr : c.fits c.right = true) (hcs : c.constraints? = some cs)
    {k : Nat} {d : ScalarConstraint α} (hd : cs[k]? = some d) :
    c.at? (k / c.shape.cols) (k % c.shape.cols) = .ok d := by
  obtain ⟨ps, hps, hmap⟩ := Option.bind_eq_some_iff.mp hcs
  obtain rfl := Option.some.inj hmap
  obtain ⟨hlen, -⟩ := Grid.mem_of_pairs? hps
  rw [List.getElem?_map, Option.map_eq_some_iff] at hd
  obtain ⟨p, hp, rfl⟩ := hd
  have hk : k < c.shape.size := hlen ▸ (List.getElem?_eq_some_iff.mp hp).1
  obtain ⟨hpl, hpr⟩ := Grid.spread?_of_pairs? hps hp
  obtain ⟨hrow, hcol⟩ := Shape.position_lt hk
  rw [← Nat.div_add_mod' k c.shape.cols] at hpl hpr
  rw [at?, if_pos ⟨hrow, hcol⟩, sideAt_eq_ok (Constraint.fits_iff.mp hl) hrow hcol hpl,
    sideAt_eq_ok (Constraint.fits_iff.mp hr) hrow hcol hpr]
  rfl

end GridConstraint

/-! ## Well-shaped constraints -/

namespace Constraint

/-- The recorded shape is not empty, and over a vector it has one column. -/
structure WellShaped (c : Constraint α) : Prop where
  size_pos : 0 < c.shape.size
  cols_eq : c.form = .vector → c.shape.cols = 1

/-- A constraint gives out the elements of the list, of which there is at least one: over a vector
there are as many as its length says, each at its index, and over a matrix each is in its row and
column. -/
structure GivesOut (c : Constraint α) (cs : List (ScalarConstraint α)) : Prop where
  ne_nil : cs ≠ []
  length_vector : ∀ g, c = .vector g → g.length = cs.length
  at_vector : ∀ g, c = .vector g → ∀ k d, cs[k]? = some d → g.atIndex k = .ok d
  at_matrix : ∀ g, c = .matrix g → ∀ k d, cs[k]? = some d →
    g.at? (k / g.shape.cols) (k % g.shape.cols) = .ok d

section Elements

variable {c : Constraint α} {cs : List (ScalarConstraint α)}

theorem WellShaped.givesOut [One α] (h : c.WellShaped) (hc : c.check = .ok ())
    (hcs : c.constraints? = some cs) : c.GivesOut cs := by
  have hlen := length_of_constraints? hcs
  have hne : cs ≠ [] := List.length_pos_iff.mp (hlen ▸ h.size_pos)
  refine ⟨hne, fun g hg => ?_, fun g hg k d hd => ?_, fun g hg k d hd => ?_⟩
  · subst hg
    have hcols : g.shape.cols = 1 := h.cols_eq rfl
    rw [hlen]
    show g.shape.rows = g.shape.rows * g.shape.cols
    rw [hcols, Nat.mul_one]
  · subst hg
    have hcols : g.shape.cols = 1 := h.cols_eq rfl
    obtain ⟨-, -, hfl, hfr⟩ := gridCheck_eq_ok.mp hc
    have hat := GridConstraint.at?_of_getElem? hfl hfr hcs hd
    rw [hcols, Nat.div_one, Nat.mod_one] at hat
    exact hat
  · subst hg
    obtain ⟨-, -, hfl, hfr⟩ := gridCheck_eq_ok.mp hc
    exact GridConstraint.at?_of_getElem? hfl hfr hcs hd

/-- A length that is right leaves no room for a second column. -/
theorem GivesOut.wellShaped (h : c.GivesOut cs) (hcs : c.constraints? = some cs) :
    c.WellShaped := by
  have hlen := length_of_constraints? hcs
  have hpos : 0 < c.shape.size := hlen ▸ List.length_pos_iff.mpr h.ne_nil
  refine ⟨hpos, fun hform => ?_⟩
  cases c with
  | scalar c => cases hform
  | matrix c => cases hform
  | vector g =>
    have hrows : g.shape.rows = g.shape.rows * g.shape.cols := (h.length_vector g rfl).trans hlen
    have hrowsPos : 0 < g.shape.rows := Nat.pos_of_mul_pos_right hpos
    exact Nat.eq_of_mul_eq_mul_left hrowsPos (hrows.symm.trans (Nat.mul_one _).symm)

end Elements

section Numbers

variable [Zero α] [One α] [Add α] [Neg α] [Mul α] [BEq α] {c : Constraint α}

/-- The sides of a simplified constraint are a column or a matrix of as many elements as there are,
so the constraint is only valid if that is the recorded shape. -/
theorem wellShaped_of_check_rearranged {cs : List (ScalarConstraint α)}
    (h : (c.rearranged cs).check = .ok ()) : c.WellShaped := by
  cases c with
  | scalar c => exact ⟨Nat.one_pos, nofun⟩
  | vector c =>
    obtain ⟨hl, -, hfl, -⟩ := gridCheck_eq_ok.mp h
    have hshape : c.shape = .column (cs.map (·.split.1)).length :=
      (fits_iff.mp hfl).resolve_left nofun
    refine ⟨?_, fun _ => congrArg Shape.cols hshape⟩
    show 0 < c.shape.size
    rw [hshape]
    exact Expression.size_pos hl
  | matrix c =>
    obtain ⟨hl, -, -, -⟩ := gridCheck_eq_ok.mp h
    exact ⟨Expression.size_pos hl, nofun⟩

theorem simplified_valid_iff (hc : c.check = .ok ()) :
    (∃ s, c.simplified = .ok s ∧ s.check = .ok ()) ↔ c.WellShaped := by
  obtain ⟨-, -, cs, hcs, -⟩ := exists_constraints? hc
  constructor
  · intro h
    obtain ⟨s, hs, hscheck⟩ := h
    obtain rfl : c.rearranged cs = s := Except.ok.inj ((simplified_eq hc hcs).symm.trans hs)
    exact wellShaped_of_check_rearranged hscheck
  · intro h
    exact exists_simplified hc h.cols_eq h.size_pos

theorem wellShaped_of_compare {l r : Expression α} {sense : Sense}
    (h : (l.compare r sense).outcome = .ok c) : c.WellShaped := by
  obtain ⟨hc, -, hsimplified⟩ := (l.ensures_compare r sense).value c h
  exact (simplified_valid_iff hc).mp hsimplified

/-- **What the recorded shape decides.** A valid constraint has an element for every place of the
recorded shape. It gives them out, and can be simplified to a valid constraint, exactly when it is
well-shaped, as all constraints are that comparisons make. -/
theorem recorded_shape :
    (∀ c : Constraint α, c.check = .ok () →
      ∃ cs, c.constraints? = some cs ∧ cs.length = c.shape.size ∧ (c.GivesOut cs ↔ c.WellShaped) ∧
        ((∃ s, c.simplified = .ok s ∧ s.check = .ok ()) ↔ c.WellShaped)) ∧
    ∀ (l r : Expression α) (sense : Sense) (c : Constraint α),
      (l.compare r sense).outcome = .ok c → c.check = .ok () ∧ c.WellShaped := by
  refine ⟨fun c hc => ?_, fun l r sense c h => ⟨?_, wellShaped_of_compare h⟩⟩
  · obtain ⟨cs, hcs, hlen, -⟩ := exists_elements hc
    refine ⟨cs, hcs, hlen, ⟨fun h => h.wellShaped hcs, fun h => h.givesOut hc hcs⟩, ?_⟩
    exact simplified_valid_iff hc
  · exact ((l.ensures_compare r sense).value c h).1

end Numbers

/-- A column of two variables, each at most one: it records its shape, and index `1` has the second
constraint. -/
theorem recorded_shape_column :
    let x : Variable ℤ := .numbered 0
    let y : Variable ℤ := .numbered 1
    let l : Expression ℤ := .vector .variable ⟨[x, y]⟩
    let g : GridConstraint ℤ := ⟨l, .constant 1, .lessEqual, .column 2⟩
    (l.compare (.constant 1) .lessEqual).outcome = .ok (.vector g) ∧
      (vector g).check = .ok () ∧ (vector g).WellShaped ∧
      (∃ cs, g.constraints? = some cs ∧ (vector g).GivesOut cs) ∧
      ∃ s, (vector g).simplified = .ok s ∧ s.check = .ok () := by
  intro x y l g
  obtain ⟨hvalid, hcompared⟩ := @recorded_shape ℤ _ _ _ _ _ _
  have hcompare : (l.compare (.constant 1) .lessEqual).outcome = .ok (.vector g) := by cbv
  obtain ⟨hc, hshaped⟩ := hcompared _ _ _ _ hcompare
  obtain ⟨cs, hcs, -, hgives, hsimplified⟩ := hvalid _ hc
  exact ⟨hcompare, hc, hshaped, ⟨cs, hcs, hgives.mpr hshaped⟩, hsimplified.mpr hshaped⟩

/-- A row of two variables, each at most one, with the form of a constraint over a vector: it is
valid and has two elements, but its length is one, there is nothing at index `1`, and simplified it
is not valid. -/
theorem row_recorded_for_vector :
    let x : Variable ℤ := .numbered 0
    let y : Variable ℤ := .numbered 1
    let g : GridConstraint ℤ := ⟨.matrix .variable ⟨1, 2, [x, y]⟩, .constant 1, .lessEqual, ⟨1, 2⟩⟩
    (vector g).check = .ok () ∧
      g.constraints? = some [⟨.variable x, .lessEqual, .constant 1⟩,
        ⟨.variable y, .lessEqual, .constant 1⟩] ∧
      g.length = 1 ∧ g.atIndex 1 = Attempt.refuse (.indexOutOfBounds 1 0 ⟨1, 2⟩) ∧
      ∃ s, (vector g).simplified = .ok s ∧
        s.check = .error (.vectorShapeMismatch .comparison (.column 2) ⟨1, 2⟩) := by
  intro x y g
  have hc : (vector g).check = .ok () := by cbv
  have hcs : g.constraints? = some [⟨.variable x, .lessEqual, .constant 1⟩,
    ⟨.variable y, .lessEqual, .constant 1⟩] := by cbv
  refine ⟨hc, hcs, rfl, by cbv, _, simplified_eq hc hcs, ?_⟩
  cbv

end Constraint

end DecisionAlgebra
