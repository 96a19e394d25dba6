import DecisionAlgebra.Proofs.Linear.Representation

/-!
# A linear system is the stack of its forms

Forms and systems are extracted by two pieces of code: a form negates its row and its constant where
the sense is turned around, a system multiplies all of its entries by a sign. Over exact numbers
both are the walk of `signedRow`, for one element and for all of them in order. So a system has a
row for each element, the one of the form of the element over the same ordering, and where an
element has no form the system fails as the first of those elements does.
-/

namespace DecisionAlgebra

variable {α : Type}

/-! ## Forms -/

/-- The linear form of a constraint between scalars by the call that fits its sense. -/
def ScalarConstraint.linearBySense [Zero α] [One α] [Add α] [Neg α] [Mul α] [BEq α] [Numeral α]
    (c : ScalarConstraint α) (wrt : Option (List (Variable α))) : Traced (LinearForm α) :=
  if c.sense.isInequality then c.linearInequality wrt else c.linearEquality wrt

/-- The form that a signed row is. -/
def LinearForm.ofRow (ordering : List (Variable α)) (sense : Sense) (r : List α × α) :
    LinearForm α := ⟨r.1, r.2, ordering, sense⟩

/-- The system has the forms for its rows, over their ordering and in their sense. -/
structure LinearSystem.Stacks (s : LinearSystem α) (fs : List (LinearForm α)) : Prop where
  rows_eq : s.coefficients.toRows = fs.map (·.coefficients)
  constants_eq : s.constants = fs.map (·.constant)
  ordering_eq : ∀ f ∈ fs, f.ordering = s.ordering
  sense_eq : ∀ f ∈ fs, f.sense = s.sense

/-- A matrix made of signed rows, with their constants, stacks their forms. -/
theorem LinearSystem.stacks_of_rows {d : DenseMatrix α} {rows : List (List α × α)}
    (hd : d.toRows = rows.map (·.1)) (ordering : List (Variable α)) (sense : Sense) :
    Stacks ⟨d, rows.map (·.2), ordering, sense⟩ (rows.map (LinearForm.ofRow ordering sense)) where
  rows_eq := by
    rw [List.map_map, hd]
    rfl
  constants_eq := by
    rw [List.map_map]
    rfl
  ordering_eq f hf := by
    obtain ⟨r, -, rfl⟩ := List.mem_map.mp hf
    rfl
  sense_eq f hf := by
    obtain ⟨r, -, rfl⟩ := List.mem_map.mp hf
    rfl

section Outcomes

variable [CommRing α] [BEq α] [Numeral α] {wrt : Option (List (Variable α))}

namespace ScalarConstraint

/-- A form is a signed row, and refused for the cause for which the row is. -/
theorem toForm_of_isLinear {c : ScalarConstraint α} (hlinear : c.isLinear = true) :
    c.toForm wrt = Attempt.checked
      ((Constraint.signedRow (c.sense.sign α) (wrt.getD c.occurring) c).map
        (LinearForm.ofRow (wrt.getD c.occurring) c.sense.extracted)) := by
  cases hsigned : Constraint.signedRow (c.sense.sign α) (wrt.getD c.occurring) c with
  | ok r => exact toForm_eq_ok.mpr ⟨hlinear, r, hsigned, rfl⟩
  | error err =>
    have hrow : coefficientRow c.split.1.monomials (wrt.getD c.occurring) = .error err :=
      (bind_eq_error.mp hsigned).resolve_right nofun
    obtain ⟨hleft, hright⟩ := (Constraint.isLinear_iff (c := .scalar c)).mp hlinear
    have hl : (Expression.scalar c.left).requireLinear .left = .ok () :=
      Expression.requireLinear_eq_ok.mpr hleft
    have hr : (Expression.scalar c.right).requireLinear .right = .ok () :=
      Expression.requireLinear_eq_ok.mpr hright
    rw [toForm, hl, hr]
    show (Attempt.checked (coefficientRow c.split.1.monomials (wrt.getD c.occurring)) >>= _) = _
    rw [hrow]
    rfl

theorem outcome_linearForm (c : ScalarConstraint α) :
    (c.linearForm wrt).outcome = c.toForm wrt := by
  rw [linearForm, Traced.outcome_bind, Traced.outcome_quiet]
  cases c.toForm wrt <;> rfl

/-- Of the two calls one is made for the sense that the constraint has. -/
theorem outcome_linearBySense {c : ScalarConstraint α} (hc : c.check = .ok ()) :
    (c.linearBySense wrt).outcome = c.toForm wrt := by
  unfold linearBySense
  split
  next h =>
    rw [linearInequality, hc, Sense.requireInequality, if_pos h]
    exact c.outcome_linearForm
  next h =>
    rw [linearEquality, hc, Sense.requireEquality, if_neg h]
    exact c.outcome_linearForm

end ScalarConstraint

namespace Constraint

/-- A system is the walk of `signedRow` over the elements, whether it succeeds or not. -/
theorem toSystem_of_isLinear {c : Constraint α} {cs : List (ScalarConstraint α)}
    (hcs : c.constraints? = some cs) (hlinear : c.isLinear = true)
    (wrt : Option (List (Variable α))) :
    match cs.mapM (signedRow (c.sense.sign α) (wrt.getD c.occurring)) with
    | .ok rows => ∃ s, c.toSystem wrt = .ok s ∧ s.ordering = wrt.getD c.occurring ∧
        s.sense = c.sense.extracted ∧
        s.Stacks (rows.map (LinearForm.ofRow (wrt.getD c.occurring) c.sense.extracted))
    | .error err => c.toSystem wrt = Attempt.refuse err := by
  cases hrows : cs.mapM (signedRow (c.sense.sign α) (wrt.getD c.occurring)) with
  | ok rows =>
    obtain ⟨d, hd, -, htoRows⟩ := exists_rowMatrix hrows
    exact ⟨_, toSystem_eq_ok.mpr ⟨cs, hcs, hlinear, rows, hrows, d, hd, rfl⟩, rfl, rfl,
      LinearSystem.stacks_of_rows htoRows _ _⟩
  | error err =>
    obtain ⟨hleft, hright⟩ := isLinear_iff.mp hlinear
    have hl : c.left.requireLinear .left = .ok () := Expression.requireLinear_eq_ok.mpr hleft
    have hr : c.right.requireLinear .right = .ok () := Expression.requireLinear_eq_ok.mpr hright
    rw [Sense.sign] at hrows
    rw [toSystem, hcs, hl, hr]
    show (Attempt.checked (cs.mapM _) >>= _) = _
    rw [hrows]
    rfl

theorem outcome_linearRepresentation {c : Constraint α} (hc : c.check = .ok ()) :
    (c.linearRepresentation wrt).outcome = c.toSystem wrt := by
  rw [linearRepresentation, hc]
  show (c.linearSystem wrt).outcome = _
  rw [linearSystem, Traced.outcome_bind, Traced.outcome_quiet]
  cases c.toSystem wrt <;> rfl

/-! ## The forms of the elements -/

variable {c : Constraint α} {cs : List (ScalarConstraint α)} {d : ScalarConstraint α}

/-- The form of an element is a signed row of the system. -/
theorem outcome_element (hc : c.check = .ok ()) (hlinear : c.isLinear = true)
    (hcs : c.constraints? = some cs) (hd : d ∈ cs) (ordering : List (Variable α)) :
    (d.linearBySense (some ordering)).outcome = Attempt.checked
      ((signedRow (c.sense.sign α) ordering d).map
        (LinearForm.ofRow ordering c.sense.extracted)) := by
  obtain ⟨hsense, hvalid⟩ := linear_elements hc hlinear hcs hd
  have hcheck : d.check = .ok () := ScalarConstraint.check_eq_ok.mpr hvalid.factorsIn
  have hsides : d.isLinear = true := Bool.and_eq_true_iff.mpr ⟨hvalid.left, hvalid.right⟩
  rw [ScalarConstraint.outcome_linearBySense hcheck, ← hsense]
  exact ScalarConstraint.toForm_of_isLinear hsides

/-- **The walk over the forms of the elements decides the system.** -/
theorem outcome_of_forms (hc : c.check = .ok ()) (hlinear : c.isLinear = true)
    (hcs : c.constraints? = some cs) (wrt : Option (List (Variable α))) :
    match cs.mapM fun d => (d.linearBySense (some (wrt.getD c.occurring))).outcome with
    | .ok fs => ∃ s, (c.linearRepresentation wrt).outcome = .ok s ∧
        s.ordering = wrt.getD c.occurring ∧ s.sense = c.sense.extracted ∧ s.Stacks fs
    | .error f => (c.linearRepresentation wrt).outcome = .error f := by
  have hsystem := toSystem_of_isLinear hcs hlinear wrt
  rw [Attempt.mapM_checked_map fun d hd => outcome_element hc hlinear hcs hd _,
    outcome_linearRepresentation hc]
  cases hrows : cs.mapM (signedRow (c.sense.sign α) (wrt.getD c.occurring)) with
  | ok rows =>
    rw [hrows] at hsystem
    exact hsystem
  | error err =>
    rw [hrows] at hsystem
    exact hsystem

end Constraint

/-! ## The default ordering -/

namespace ScalarConstraint

omit [Numeral α] in
/-- The variables left of the equation sign occur in a side. -/
theorem lists_occurring_of_mem_split {c : ScalarConstraint α} {m : Monomial α}
    (hm : m ∈ c.split.1.monomials) {v : Variable α} (hv : m.linearVariable = some v) :
    Lists c.occurring v.id := by
  have hconstant : m ≠ Monomial.constant 0 := by
    rintro rfl
    cases hv
  have hmem := ((Polynomial.mem_withoutConstant hm).resolve_right hconstant).1
  obtain ⟨hnormal, n, hn, hexp⟩ := (mem_difference hmem).resolve_left hconstant
  -- an exact total is never below the total as a word
  have hpos : 0 < n.exactMap v.id := by
    refine lt_of_lt_of_le ?_ (n.toNat_exponentMap_le v.id)
    rw [hexp, ← hnormal.totalsFit.exactMap_eq]
    exact Monomial.exactMap_pos_of_linearVariable hv
  rw [Lists, occurring, Variable.mem_ids_distinct, List.map_append, List.mem_append,
    Scalar.mem_ids_occurring, Scalar.mem_ids_occurring]
  exact (List.mem_append.mp hn).imp (fun h => ⟨n, h, hpos⟩) fun h => ⟨n, h, hpos⟩

/-- Over its own variables a linear constraint has a form. -/
theorem exists_toForm_none {c : ScalarConstraint α} (hlinear : c.isLinear = true) :
    ∃ f, c.toForm none = .ok f := by
  have hrow : ∃ row, coefficientRow c.split.1.monomials c.occurring = .ok row :=
    exists_coefficientRow.mpr fun m hm v hv => lists_occurring_of_mem_split hm hv
  obtain ⟨row, hrow⟩ := hrow
  exact ⟨_, toForm_eq_ok.mpr
    ⟨hlinear, _, Constraint.signedRow_eq_ok.mpr ⟨row, hrow, rfl⟩, rfl⟩⟩

end ScalarConstraint

/-! ## Systems -/

/-- A constraint between scalars has the one form over its own variables for its system. -/
theorem ScalarConstraint.linearRepresentation_none {d : ScalarConstraint α}
    (hd : d.check = .ok ()) (hlinear : d.isLinear = true) :
    ∃ s f, ((Constraint.scalar d).linearRepresentation none).outcome = .ok s ∧
      (d.linearBySense none).outcome = .ok f ∧ s.Stacks [f] := by
  obtain ⟨f, hf⟩ := exists_toForm_none hlinear
  have hform : (d.linearBySense (some d.occurring)).outcome = .ok f :=
    (outcome_linearBySense hd).trans hf
  have hforms := Constraint.outcome_of_forms (c := .scalar d) hd hlinear rfl none
  have hwalk : ([d].mapM fun d' => (d'.linearBySense (some d.occurring)).outcome) = .ok [f] :=
    mapM_eq_ok.mpr (.cons hform .nil)
  have hordering : (none : Option (List (Variable α))).getD (Constraint.scalar d).occurring =
    d.occurring := rfl
  rw [hordering, hwalk] at hforms
  obtain ⟨s, hs, -, -, hstacks⟩ := hforms
  exact ⟨s, f, hs, (outcome_linearBySense hd).trans hf, hstacks⟩

/-- **A linear system is the stack of the forms of its elements.** A valid linear constraint has a
system exactly when each of its elements has a form over the ordering of the system. The system
then has these forms for its rows, and otherwise it is refused as the first element that has none.
Over its own variables a constraint between scalars always has a form, which is the one row of its
system. -/
theorem Constraint.linearRepresentation_stacks {c : Constraint α} (hc : c.check = .ok ())
    (hlinear : c.isLinear = true) (wrt : Option (List (Variable α))) :
    ∃ cs, c.constraints? = some cs ∧
      ((∃ s, (c.linearRepresentation wrt).outcome = .ok s) ↔
        ∀ d ∈ cs, ∃ f, (d.linearBySense (some (wrt.getD c.occurring))).outcome = .ok f) ∧
      (∀ s, (c.linearRepresentation wrt).outcome = .ok s →
        s.ordering = wrt.getD c.occurring ∧ s.sense = c.sense.extracted ∧
        ∃ fs, List.Forall₂ (fun d f =>
          (d.linearBySense (some (wrt.getD c.occurring))).outcome = .ok f) cs fs ∧ s.Stacks fs) ∧
      (∀ e, (c.linearRepresentation wrt).outcome = .error e ↔
        ∃ before d after, cs = before ++ d :: after ∧
          (∀ b ∈ before, ∃ f,
            (b.linearBySense (some (wrt.getD c.occurring))).outcome = .ok f) ∧
          (d.linearBySense (some (wrt.getD c.occurring))).outcome = .error e) ∧
      ∀ d, c = .scalar d → ∃ s f, (c.linearRepresentation none).outcome = .ok s ∧
        (d.linearBySense none).outcome = .ok f ∧ s.Stacks [f] := by
  obtain ⟨-, -, cs, hcs, -⟩ := exists_constraints? hc
  have hforms := outcome_of_forms hc hlinear hcs wrt
  have hscalar : ∀ d, c = .scalar d → ∃ s f, (c.linearRepresentation none).outcome = .ok s ∧
      (d.linearBySense none).outcome = .ok f ∧ s.Stacks [f] := by
    rintro d rfl
    exact ScalarConstraint.linearRepresentation_none hc hlinear
  refine ⟨cs, hcs, ?_⟩
  simp only [← mapM_eq_error_iff]
  simp only [← exists_mapM_eq_ok, ← mapM_eq_ok]
  cases hwalk : cs.mapM fun d => (d.linearBySense (some (wrt.getD c.occurring))).outcome with
  | ok fs =>
    rw [hwalk] at hforms
    obtain ⟨s, hs, hordering, hsense, hstacks⟩ := hforms
    rw [hs]
    refine ⟨⟨fun _ => ⟨fs, rfl⟩, fun _ => ⟨s, rfl⟩⟩, fun t ht => ?_, fun e => ⟨nofun, nofun⟩,
      hscalar⟩
    cases ht
    exact ⟨hordering, hsense, fs, rfl, hstacks⟩
  | error f =>
    rw [hwalk] at hforms
    rw [hforms]
    refine ⟨⟨nofun, nofun⟩, nofun, fun e => ?_, hscalar⟩
    rw [Except.error.injEq, Except.error.injEq]

end Outcomes

/-- `x ≥ y` and `x ≥ 3` over an ordering without `y`: the first element has no form. Over the
variables of the constraint both have one, and the sense is turned around. -/
theorem Constraint.linearRepresentation_stacks_column :
    let x : Variable ℚ := .numbered 0
    let y : Variable ℚ := .numbered 1
    let c : Constraint ℚ := .vector ⟨.scalar (.variable x),
      .vector .monomial ⟨[.term y 1, .constant 3]⟩, .greaterEqual, .column 2⟩
    c.check = .ok () ∧ c.isLinear = true ∧
      (c.linearRepresentation (some [x])).outcome = .error (.refused (.notInOrdering y.id)) ∧
      ∃ s fs, (c.linearRepresentation none).outcome = .ok s ∧ s.ordering = [x, y] ∧
        s.sense = .lessEqual ∧ s.Stacks fs ∧
        fs.map (·.coefficients) = [[-1, 1], [-1, 0]] ∧ fs.map (·.constant) = [0, -3] := by
  intro x y c
  have hc : c.check = .ok () := by cbv
  have hlinear : c.isLinear = true := by decide
  let d : ScalarConstraint ℚ := ⟨.variable x, .greaterEqual, .monomial (.term y 1)⟩
  let e : ScalarConstraint ℚ := ⟨.variable x, .greaterEqual, .monomial (.constant 3)⟩
  have helements : c.constraints? = some [d, e] := by cbv
  obtain ⟨cs, hcs, -, -, herror, -⟩ := linearRepresentation_stacks hc hlinear (some [x])
  obtain rfl := Option.some.inj (hcs.symm.trans helements)
  have hrefused : (d.linearBySense (some [x])).outcome = .error (.refused (.notInOrdering y.id)) :=
    by cbv
  obtain ⟨cs, hcs, hiff, hvalue, -⟩ := linearRepresentation_stacks hc hlinear none
  obtain rfl := Option.some.inj (hcs.symm.trans helements)
  have hd : (d.linearBySense (some [x, y])).outcome = .ok ⟨[-1, 1], 0, [x, y], .lessEqual⟩ := by
    cbv
  have he : (e.linearBySense (some [x, y])).outcome = .ok ⟨[-1, 0], -3, [x, y], .lessEqual⟩ := by
    cbv
  obtain ⟨s, hs⟩ := hiff.mpr (List.forall_mem_cons.mpr
    ⟨⟨_, hd⟩, List.forall_mem_singleton.mpr ⟨_, he⟩⟩)
  obtain ⟨hordering, hsense, fs, hfs, hstacks⟩ := hvalue s hs
  have hforms : fs = [⟨[-1, 1], 0, [x, y], .lessEqual⟩, ⟨[-1, 0], -3, [x, y], .lessEqual⟩] :=
    Except.ok.inj ((mapM_eq_ok.mpr hfs).symm.trans (mapM_eq_ok.mpr (.cons hd (.cons he .nil))))
  subst hforms
  have hfirst : (c.linearRepresentation (some [x])).outcome =
      .error (.refused (.notInOrdering y.id)) :=
    (herror _).mpr ⟨[], d, [e], rfl, fun b hb => absurd hb List.not_mem_nil, hrefused⟩
  exact ⟨hc, hlinear, hfirst, s, _, hs, hordering, hsense, hstacks, rfl, rfl⟩

end DecisionAlgebra
