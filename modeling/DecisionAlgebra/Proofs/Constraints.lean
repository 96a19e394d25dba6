import DecisionAlgebra.Constraint.Basic
import DecisionAlgebra.Proofs.Evaluation
import DecisionAlgebra.Proofs.Occurrence

/-!
# Constraints and their elements

A constraint that passes its check is the list of the constraints between its elements, each a valid
constraint between scalars. At a point that gives every stored variable a value, each of them is
true or false, and the constraint is satisfied when all of them are true.
-/

namespace DecisionAlgebra

open MvPolynomial (eval)

variable {α : Type} {P Q : VariableId → Prop}

/-- The point gives every variable of the list a value. -/
def Point.Assigns (p : Point α) (vs : List (Variable α)) : Prop := ∀ v ∈ vs, ∃ x, p v.id = some x

instance (p : Point α) (vs : List (Variable α)) : Decidable (p.Assigns vs) :=
  decidable_of_iff (∀ v ∈ vs, (p v.id).isSome)
    (forall₂_congr fun _ _ => Option.isSome_iff_exists)

theorem Point.mapM_value_eq [Zero α] {p : Point α} {vs : List (Variable α)} (hp : p.Assigns vs) :
    vs.mapM p.value = .ok (vs.map fun v => p.valuation v.id) := by
  rw [mapM_eq_ok_iff_map vs fun v _ x => Point.value_eq_ok]
  exact ⟨hp, rfl⟩

/-! ## Senses -/

namespace Sense

variable [LE α] [DecidableLE α] [BEq α] {l r : α}

@[simp] theorem lessEqual_holds : lessEqual.holds l r = true ↔ l ≤ r := decide_eq_true_iff

@[simp] theorem greaterEqual_holds : greaterEqual.holds l r = true ↔ r ≤ l := decide_eq_true_iff

@[simp] theorem equal_holds [LawfulBEq α] : equal.holds l r = true ↔ l = r := beq_iff_eq

end Sense

/-! ## Reading a constraint -/

namespace Constraint

theorem isLinear_iff {c : Constraint α} :
    c.isLinear = true ↔ c.left.isLinear = true ∧ c.right.isLinear = true := by
  cases c with
  | scalar c =>
    rw [isLinear, ScalarConstraint.isLinear, Bool.and_eq_true]
    simp [left, right, Expression.isLinear, Expression.elements]
  | vector c => exact Bool.and_eq_true _ _ ▸ Iff.rfl
  | matrix c => exact Bool.and_eq_true _ _ ▸ Iff.rfl

theorem mem_ids_occurring {c : Constraint α} {id : VariableId} :
    id ∈ c.occurring.map (·.id) ↔
      id ∈ c.left.occurring.map (·.id) ∨ id ∈ c.right.occurring.map (·.id) := by
  cases c with
  | scalar c =>
    simp [occurring, ScalarConstraint.occurring, left, right, Expression.mem_ids_occurring,
      Expression.elements]
  | vector c => simp [occurring, GridConstraint.occurring, left, right]
  | matrix c => simp [occurring, GridConstraint.occurring, left, right]

end Constraint

/-! ## Well-formed constraints -/

section One

variable [One α]

theorem Scalar.factorsIn_gives {s : Scalar α} {p : Point α}
    (hs : s.FactorsIn fun id => id.isDefined = true) (hp : p.Assigns s.stored) :
    s.FactorsIn p.Gives := by
  refine ⟨hs.ne_nil, fun m hm => ⟨(hs.each m hm).length_eq, fun v hv => ?_⟩⟩
  exact ⟨(hs.each m hm).ids v hv, hp v (List.mem_flatMap.mpr ⟨m, hm, hv⟩)⟩

namespace ScalarConstraint

/-- Both sides are well-formed with identifiers in `P`. -/
structure FactorsIn (P : VariableId → Prop) (c : ScalarConstraint α) : Prop where
  left : c.left.FactorsIn P
  right : c.right.FactorsIn P

@[inherit_doc Monomial.PowersWithin]
def PowersWithin (c : ScalarConstraint α) : Prop := c.left.PowersWithin ∧ c.right.PowersWithin

instance (c : ScalarConstraint α) : Decidable c.PowersWithin :=
  inferInstanceAs (Decidable (c.left.PowersWithin ∧ c.right.PowersWithin))

@[inherit_doc Scalar.DegreesFit]
def DegreesFit (c : ScalarConstraint α) : Prop := c.left.DegreesFit ∧ c.right.DegreesFit

instance (c : ScalarConstraint α) : Decidable c.DegreesFit :=
  inferInstanceAs (Decidable (c.left.DegreesFit ∧ c.right.DegreesFit))

/-- The variables of both sides as written. -/
def stored (c : ScalarConstraint α) : List (Variable α) := c.left.stored ++ c.right.stored

theorem check_eq_ok {c : ScalarConstraint α} :
    c.check = .ok () ↔ c.FactorsIn (fun id => id.isDefined = true) := by
  rw [check, unit_bind_eq_ok, Scalar.check_eq_ok, Scalar.check_eq_ok]
  exact ⟨fun h => ⟨h.1, h.2⟩, fun h => ⟨h.left, h.right⟩⟩

theorem factorsIn_gives {c : ScalarConstraint α} {p : Point α}
    (hc : c.FactorsIn fun id => id.isDefined = true) (hp : p.Assigns c.stored) :
    c.FactorsIn p.Gives :=
  ⟨Scalar.factorsIn_gives hc.left fun v hv => hp v (List.mem_append_left _ hv),
    Scalar.factorsIn_gives hc.right fun v hv => hp v (List.mem_append_right _ hv)⟩

end ScalarConstraint

namespace Constraint

@[inherit_doc Expression.DegreesFit]
def DegreesFit (c : Constraint α) : Prop := c.left.DegreesFit ∧ c.right.DegreesFit

instance (c : Constraint α) : Decidable c.DegreesFit :=
  inferInstanceAs (Decidable (c.left.DegreesFit ∧ c.right.DegreesFit))

/-- The variables of both sides as written. -/
def stored (c : Constraint α) : List (Variable α) := c.left.stored ++ c.right.stored

omit [One α] in
theorem fits_iff {c : GridConstraint α} {e : Expression α} :
    c.fits e = true ↔ e.form = .scalar ∨ c.shape = e.dims := by
  rw [GridConstraint.fits, Bool.or_eq_true, decide_eq_true_eq, Expression.isScalar_iff,
    eq_comm (a := c.shape)]

/-- What the check of a constraint over a shape finds out. -/
theorem gridCheck_eq_ok {c : GridConstraint α} {mismatch : Shape → Shape → Error} :
    c.check mismatch = .ok () ↔ c.left.FactorsIn (fun id => id.isDefined = true) ∧
      c.right.FactorsIn (fun id => id.isDefined = true) ∧
      c.fits c.left = true ∧ c.fits c.right = true := by
  rw [GridConstraint.check, unit_bind_eq_ok, unit_bind_eq_ok, Expression.check_eq_ok,
    Expression.check_eq_ok]
  refine and_congr_right fun _ => and_congr_right fun _ => ?_
  split
  next h => exact ⟨fun _ => Bool.and_eq_true_iff.mp h, fun _ => rfl⟩
  next h => exact ⟨nofun, fun hfits => absurd (Bool.and_eq_true_iff.mpr hfits) h⟩

theorem exists_gridConstraints {c : GridConstraint α} (hl : c.left.FactorsIn P)
    (hr : c.right.FactorsIn P) (hfl : c.fits c.left = true) (hfr : c.fits c.right = true) :
    ∃ cs, c.constraints? = some cs ∧ ∀ d ∈ cs,
      d.sense = c.sense ∧ d.left ∈ c.left.elements ∧ d.right ∈ c.right.elements := by
  -- either side has an element for every place of the recorded shape
  obtain ⟨ps, hps⟩ := Grid.exists_pairs? (Grid.fits_ofExpression hl.length_eq)
    (Grid.fits_ofExpression hr.length_eq) (fits_iff.mp hfl) (fits_iff.mp hfr)
  refine ⟨ps.map fun q => ⟨q.1, c.sense, q.2⟩, by rw [GridConstraint.constraints?, hps]; rfl, ?_⟩
  intro d hd
  obtain ⟨q, hq, rfl⟩ := List.mem_map.mp hd
  exact ⟨rfl, (Grid.mem_of_pairs? hps).2 q hq⟩

/-- **A valid constraint is a list of valid constraints between elements of its sides.** -/
theorem exists_constraints? {c : Constraint α} (hc : c.check = .ok ()) :
    c.left.FactorsIn (fun id => id.isDefined = true) ∧
      c.right.FactorsIn (fun id => id.isDefined = true) ∧
      ∃ cs, c.constraints? = some cs ∧ ∀ d ∈ cs,
        d.sense = c.sense ∧ d.left ∈ c.left.elements ∧ d.right ∈ c.right.elements := by
  cases c with
  | scalar c =>
    have hin := ScalarConstraint.check_eq_ok.mp hc
    refine ⟨Expression.factorsIn_scalar.mpr hin.left, Expression.factorsIn_scalar.mpr hin.right,
      [c], rfl, fun d hd => ?_⟩
    rw [List.mem_singleton.mp hd]
    exact ⟨rfl, List.mem_cons_self, List.mem_cons_self⟩
  | vector c =>
    obtain ⟨hl, hr, hfl, hfr⟩ := gridCheck_eq_ok.mp hc
    exact ⟨hl, hr, exists_gridConstraints hl hr hfl hfr⟩
  | matrix c =>
    obtain ⟨hl, hr, hfl, hfr⟩ := gridCheck_eq_ok.mp hc
    exact ⟨hl, hr, exists_gridConstraints hl hr hfl hfr⟩

omit [One α] in
/-- There is a constraint between elements for every place of the recorded shape. -/
theorem length_of_constraints? {c : Constraint α} {cs : List (ScalarConstraint α)}
    (h : c.constraints? = some cs) : cs.length = c.shape.size := by
  have hgrid : ∀ {g : GridConstraint α}, g.constraints? = some cs → cs.length = g.shape.size := by
    intro g hg
    obtain ⟨ps, hps, hcs⟩ := Option.bind_eq_some_iff.mp hg
    cases hcs
    rw [List.length_map, (Grid.mem_of_pairs? hps).1]
  cases c with
  | scalar c =>
    cases h
    rfl
  | vector c => exact hgrid h
  | matrix c => exact hgrid h

/-- The elements of a valid constraint are valid, one for every place of its shape. -/
theorem exists_elements {c : Constraint α} (hc : c.check = .ok ()) :
    ∃ cs, c.constraints? = some cs ∧ cs.length = c.shape.size ∧
      ∀ d ∈ cs, d.FactorsIn fun id => id.isDefined = true := by
  obtain ⟨hl, hr, cs, hcs, helements⟩ := exists_constraints? hc
  refine ⟨cs, hcs, length_of_constraints? hcs, fun d hd => ?_⟩
  obtain ⟨-, hdl, hdr⟩ := helements d hd
  exact ⟨hl.each _ hdl, hr.each _ hdr⟩

/-- The stored variables of an element are stored in the constraint. -/
theorem assigns_element {c : Constraint α} {d : ScalarConstraint α} {p : Point α}
    (hp : p.Assigns c.stored) (hl : d.left ∈ c.left.elements) (hr : d.right ∈ c.right.elements) :
    p.Assigns d.stored := by
  intro v hv
  rcases List.mem_append.mp hv with h | h
  · exact hp v (List.mem_append_left _ (List.mem_flatMap.mpr ⟨d.left, hl, h⟩))
  · exact hp v (List.mem_append_right _ (List.mem_flatMap.mpr ⟨d.right, hr, h⟩))

end Constraint

end One

/-! ## Truth at a point -/

namespace Constraint

variable [Zero α] [One α] [Add α] [Neg α] [Mul α] [LE α] [DecidableLE α] [BEq α] {p : Point α}

theorem allHold_cons_of_true {d : ScalarConstraint α} (hd : d.evaluate p = .ok true)
    (ds : List (ScalarConstraint α)) : allHold p (d :: ds) = allHold p ds := by
  rw [allHold, hd]
  rfl

/-- A constraint that is not true decides about the list, without those after it. -/
theorem allHold_cons_of_ne {d : ScalarConstraint α} (hd : d.evaluate p ≠ .ok true)
    (ds : List (ScalarConstraint α)) : allHold p (d :: ds) = d.evaluate p := by
  rw [allHold]
  cases h : d.evaluate p with
  | error err => rfl
  | ok b =>
    cases b with
    | true => exact absurd h hd
    | false => rfl

/-- Where all constraints of a list are true or false, so is whether they all hold. -/
theorem allHold_of_mapM {ds : List (ScalarConstraint α)} {bs : List Bool}
    (h : ds.mapM (·.evaluate p) = .ok bs) : allHold p ds = .ok (bs.all id) := by
  have hvalues := mapM_eq_ok.mp h
  clear h
  induction hvalues with
  | nil => rfl
  | @cons d b ds bs hd _ ih =>
    -- the walk stops at the first that is false, and so does the conjunction
    cases b with
    | true => rw [allHold_cons_of_true hd, ih, List.all_cons, id, Bool.true_and]
    | false => rw [allHold_cons_of_ne (by rw [hd]; nofun), hd, List.all_cons, id, Bool.false_and]

theorem allHold_eq {f : ScalarConstraint α → Bool} {ds : List (ScalarConstraint α)}
    (h : ∀ d ∈ ds, d.evaluate p = .ok (f d)) : allHold p ds = .ok (ds.all f) := by
  have hvalues : ds.mapM (·.evaluate p) = .ok (ds.map f) := by
    rw [mapM_eq_ok, List.forall₂_map_right_iff, List.forall₂_same]
    exact h
  rw [allHold_of_mapM hvalues, List.all_map, Function.id_comp]

end Constraint

section Ring

variable [CommRing α] [LE α] [DecidableLE α] [BEq α] {p : Point α}

/-- **A constraint between scalars is true or false where both sides have values**, and then it is
what the sense says about the values. -/
theorem ScalarConstraint.evaluate_eq_ok {c : ScalarConstraint α} (hc : c.PowersWithin) {b : Bool} :
    c.evaluate p = .ok b ↔ c.FactorsIn p.Gives ∧
      b = c.sense.holds (eval p.valuation c.left.exactMeaning)
        (eval p.valuation c.right.exactMeaning) := by
  rw [evaluate, unit_bind_eq_ok, check_eq_ok]
  simp only [bind_eq_ok, pure_eq_ok, Scalar.evaluate_eq_ok hc.1, Scalar.evaluate_eq_ok hc.2]
  constructor
  · intro h
    obtain ⟨-, _, ⟨hl, rfl⟩, _, ⟨hr, rfl⟩, rfl⟩ := h
    exact ⟨⟨hl, hr⟩, rfl⟩
  · intro h
    obtain ⟨hin, rfl⟩ := h
    exact ⟨⟨hin.left.mono fun _ h => h.1, hin.right.mono fun _ h => h.1⟩,
      _, ⟨hin.left, rfl⟩, _, ⟨hin.right, rfl⟩, rfl⟩

end Ring

end DecisionAlgebra
