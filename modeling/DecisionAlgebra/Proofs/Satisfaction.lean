import DecisionAlgebra.Proofs.Constraints

/-!
# Satisfied at a point

`isSatisfied` walks through the constraints between elements up to the first one that is not true,
be it false or without a value. `evaluate` walks through all of them, up to one without a value. So
the first is settled by fewer elements: wherever there are values for all of them it is whether all
are true, and at a point that gives values to some variables only it can be false where `evaluate`
is refused, namely when something false comes before the first element without a value. In no other
way do the two differ.
-/

namespace DecisionAlgebra.Constraint

variable {α : Type} [Zero α] [One α] [Add α] [Neg α] [Mul α] [LE α] [DecidableLE α] [BEq α]
variable {p : Point α} {ds : List (ScalarConstraint α)}

/-! ## Lists of constraints -/

theorem allHold_eq_true : allHold p ds = .ok true ↔ ∀ d ∈ ds, d.evaluate p = .ok true := by
  induction ds with
  | nil => exact ⟨fun _ => nofun, fun _ => rfl⟩
  | cons d ds ih =>
    rw [List.forall_mem_cons, ← ih]
    by_cases hd : d.evaluate p = .ok true
    · rw [allHold_cons_of_true hd, and_iff_right hd]
    · rw [allHold_cons_of_ne hd]
      exact ⟨fun h => absurd h hd, And.left⟩

/-- Every other answer is that of the first constraint that is not true. -/
theorem allHold_eq_iff {x : Except Error Bool} (hx : x ≠ .ok true) :
    allHold p ds = x ↔ ∃ before d after, ds = before ++ d :: after ∧
      (∀ b ∈ before, b.evaluate p = .ok true) ∧ d.evaluate p = x := by
  induction ds with
  | nil =>
    refine ⟨fun h => absurd h.symm hx, fun h => ?_⟩
    obtain ⟨before, d, after, hds, -⟩ := h
    simp at hds
  | cons d ds ih =>
    rw [exists_first_cons, ← ih]
    by_cases hd : d.evaluate p = .ok true
    · rw [allHold_cons_of_true hd, and_iff_right hd, or_iff_right fun h => hx (h.symm.trans hd)]
    · rw [allHold_cons_of_ne hd, or_iff_left fun h => hd h.1]

theorem mapM_of_allHold_true (h : allHold p ds = .ok true) :
    ∃ bs, ds.mapM (·.evaluate p) = .ok bs ∧ ∀ b ∈ bs, b = true := by
  refine ⟨ds.map fun _ => true, ?_, fun b hb => ?_⟩
  · rw [mapM_eq_ok, List.forall₂_map_right_iff, List.forall₂_same]
    exact allHold_eq_true.mp h
  · obtain ⟨_, -, rfl⟩ := List.mem_map.mp hb
    rfl

/-- What stops the shorter walk with an error stops the longer one, too. -/
theorem mapM_of_allHold_error {err : Error} (h : allHold p ds = .error err) :
    ds.mapM (·.evaluate p) = .error err := by
  have hne : (.error err : Except Error Bool) ≠ .ok true := nofun
  obtain ⟨before, d, after, hds, hbefore, hd⟩ := (allHold_eq_iff hne).mp h
  exact mapM_eq_error_iff.mpr ⟨before, d, after, hds, fun b hb => ⟨true, hbefore b hb⟩, hd⟩

/-! ## Constraints -/

/-- **Stopping early gives the answer that all values give.** For a valid constraint and any point:
if every element has a value, the constraint is satisfied when all of them are true; if it is
satisfied, every element has a value and all are true; if an error stops the shorter walk, it stops
the longer one; and the constraint is not satisfied exactly when, by rows, there are true elements
and then a false one. -/
theorem isSatisfied_agrees {c : Constraint α} (hc : c.check = .ok ()) (p : Point α) :
    ∃ cs, c.constraints? = some cs ∧
      (∀ bs, c.evaluate p = .ok bs → c.isSatisfied p = .ok (bs.all id)) ∧
      (c.isSatisfied p = .ok true → ∃ bs, c.evaluate p = .ok bs ∧ ∀ b ∈ bs, b = true) ∧
      (∀ f, c.isSatisfied p = .error f → c.evaluate p = .error f) ∧
      (c.isSatisfied p = .ok false ↔ ∃ before d after, cs = before ++ d :: after ∧
        (∀ b ∈ before, b.evaluate p = .ok true) ∧ d.evaluate p = .ok false) := by
  obtain ⟨cs, hcs, -, -⟩ := exists_elements hc
  have hevaluate : c.evaluate p = Attempt.checked (cs.mapM (·.evaluate p)) := by
    rw [evaluate, hc, hcs]
    rfl
  have hsatisfied : c.isSatisfied p = Attempt.checked (allHold p cs) := by
    rw [isSatisfied, hcs]
    rfl
  rw [hevaluate, hsatisfied]
  simp only [Attempt.checked_eq_ok]
  refine ⟨cs, hcs, fun bs => allHold_of_mapM, mapM_of_allHold_true, fun f hf => ?_,
    allHold_eq_iff (by simp)⟩
  cases h : allHold p cs with
  | ok b =>
    rw [h] at hf
    cases hf
  | error err =>
    rw [h] at hf
    cases hf
    rw [mapM_of_allHold_error h]
    rfl

/-- A column of `x` and `y`, each at most one, where `x` is two and `y` has no value: the constraint
is not satisfied, although it cannot be evaluated. -/
theorem isSatisfied_agrees_unassigned :
    let x : Variable ℤ := .numbered 0
    let y : Variable ℤ := .numbered 1
    let c : Constraint ℤ :=
      .vector ⟨.vector .variable ⟨[x, y]⟩, .constant 1, .lessEqual, .column 2⟩
    let p : Point ℤ := Point.empty.set x.id 2
    c.check = .ok () ∧ c.isSatisfied p = .ok false ∧
      c.evaluate p = Attempt.refuse (.unassigned y.id) := by
  intro x y c p
  have hc : c.check = .ok () := by cbv
  obtain ⟨cs, hcs, -, -, -, hfalse⟩ := isSatisfied_agrees hc p
  have hlist : c.constraints? = some [⟨.variable x, .lessEqual, .constant 1⟩,
    ⟨.variable y, .lessEqual, .constant 1⟩] := by cbv
  cases hlist.symm.trans hcs
  exact ⟨hc, hfalse.mpr ⟨[], _, _, rfl, List.forall_mem_nil _, by cbv⟩, by cbv⟩

end DecisionAlgebra.Constraint
