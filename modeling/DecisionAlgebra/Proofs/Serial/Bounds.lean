import DecisionAlgebra.Environment
import DecisionAlgebra.Proofs.Binary64
import DecisionAlgebra.Proofs.Serial.RoundTrip

/-!
# The bounds of a variable that is read back

`RoundTrip` says that a bound which is not finite is written as null, and that null is read as no
bound on its side. Here that is spelled out for what an environment can make over 64-bit floats.
Two numbers are infinite, so one of them is read back on either side and the other is not: a lower
bound of plus infinity comes back as minus infinity, and an upper bound of minus infinity as plus
infinity. Every other bound that is a number is kept, and so are identifier and domain.
-/

namespace DecisionAlgebra

/-! ## Bounds -/

/-- Of the finite and the two infinite values, reading changes only the infinite one that is not
read for null. -/
theorem Extended.ite_isFinite_eq {α : Type} [Extended α] [DecidableEq α] {x kept lost : α}
    (hkept : Extended.isFinite kept = false) (hlost : Extended.isFinite lost = false)
    (hx : Extended.isFinite x = true ∨ x = kept ∨ x = lost) :
    (if Extended.isFinite x then x else kept) = if x = lost then kept else x := by
  rcases hx with hfinite | rfl | rfl
  · have hne : x ≠ lost := by
      rintro rfl
      rw [hlost] at hfinite
      cases hfinite
    rw [if_pos hfinite, if_neg hne]
  · rw [hkept, if_neg Bool.false_ne_true, ite_self]
  · rw [hlost, if_neg Bool.false_ne_true, if_pos rfl]

/-- The lost value is the only one that does not come back. -/
theorem Extended.exchanged_eq_iff {α : Type} [DecidableEq α] {x kept lost : α}
    (h : kept ≠ lost) : (if x = lost then kept else x) = x ↔ x ≠ lost := by
  rw [ite_eq_right_iff]
  refine imp_congr_right fun hx => ?_
  rw [hx, iff_false]
  exact h

/-- The variables that an environment can make next: free, zero or one, or between two bounds that
are numbers, infinite ones among them. -/
inductive Environment.Makes (env : Environment) : Variable Float → Prop where
  | free : Makes env env.free.1
  | binary : Makes env env.binary.1
  | bounded {lower upper : Float} (hlower : lower.isNaN = false) (hupper : upper.isNaN = false) :
    Makes env (env.bounded lower upper).1
  | integer {lower upper : Float} (hlower : lower.isNaN = false) (hupper : upper.isNaN = false) :
    Makes env (env.integer lower upper).1

namespace Environment.Makes

variable {env : Environment} {v : Variable Float}

theorem id_eq (h : env.Makes v) : v.id = ⟨env.made⟩ := by
  cases h <;> rfl

theorem isNaN_bounds (h : env.Makes v) : v.lower.isNaN = false ∧ v.upper.isNaN = false := by
  cases h with
  | free =>
    exact ⟨show (Extended.negInfinity : Float).isNaN = false by decide,
      show (Extended.infinity : Float).isNaN = false by decide⟩
  | binary =>
    exact ⟨show (0 : Float).isNaN = false by decide, show (1 : Float).isNaN = false by decide⟩
  | bounded hlower hupper => exact ⟨hlower, hupper⟩
  | integer hlower hupper => exact ⟨hlower, hupper⟩

end Environment.Makes

namespace Serial

/-- **Which bounds are kept.** A variable that an environment has made is read back with its own
identifier and domain, and with its own bounds except that a lower bound of plus infinity becomes
minus infinity and an upper bound of minus infinity becomes plus infinity. So it is read back as it
was exactly when it has neither. -/
theorem made_variable_read_back {env : Environment} {v : Variable Float}
    (hmade : env.made ≤ maxWord32) (hv : env.Makes v) :
    readVariable (variableForm v) = some { v with
      lower := if v.lower = Extended.infinity then Extended.negInfinity else v.lower
      upper := if v.upper = Extended.negInfinity then Extended.infinity else v.upper } ∧
    (readVariable (variableForm v) = some v ↔
      v.lower ≠ Extended.infinity ∧ v.upper ≠ Extended.negInfinity) := by
  have hid : v.id.index ≤ maxWord32 := hv.id_eq ▸ hmade
  obtain ⟨hlower, hupper⟩ := hv.isNaN_bounds
  have hread := readVariable_variableForm hid
  rw [Variable.rebound,
    Extended.ite_isFinite_eq LawfulExtended.negInfinity_notFinite
      LawfulExtended.infinity_notFinite ((Binary64.isFinite_or_infinite hlower).imp_right Or.symm),
    Extended.ite_isFinite_eq LawfulExtended.infinity_notFinite
      LawfulExtended.negInfinity_notFinite (Binary64.isFinite_or_infinite hupper)] at hread
  refine ⟨hread, ?_⟩
  have hapart : (Extended.negInfinity : Float) ≠ Extended.infinity := by decide
  rw [hread, Option.some_inj]
  constructor
  · intro h
    exact ⟨(Extended.exchanged_eq_iff hapart).mp (congrArg Variable.lower h),
      (Extended.exchanged_eq_iff hapart.symm).mp (congrArg Variable.upper h)⟩
  · intro h
    rw [if_neg h.1, if_neg h.2]

/-- A variable between minus infinity and minus zero. -/
theorem made_variable_read_back_half_line :
    let env := Environment.new "e"
    let v : Variable Float := (env.bounded (-1 / 0) (-0)).1
    env.made ≤ maxWord32 ∧ env.Makes v ∧ v.lower ≠ Extended.infinity ∧
      v.upper ≠ Extended.negInfinity ∧ readVariable (variableForm v) = some v := by
  intro env v
  have hmade : env.made ≤ maxWord32 := by decide
  have hv : env.Makes v := .bounded (by decide) (by decide)
  have hlower : v.lower ≠ Extended.infinity := by decide
  have hupper : v.upper ≠ Extended.negInfinity := by decide
  exact ⟨hmade, hv, hlower, hupper, (made_variable_read_back hmade hv).2.mpr ⟨hlower, hupper⟩⟩

/-- A variable whose two bounds are plus infinity is read back as a free one. -/
theorem infinite_lower_bound_replaced :
    let env := Environment.new "e"
    let v : Variable Float := (env.bounded (1 / 0) (1 / 0)).1
    env.made ≤ maxWord32 ∧ env.Makes v ∧
      readVariable (variableForm v) = some (env.free.1 : Variable Float) ∧
      (env.free.1 : Variable Float).lower ≠ v.lower := by
  intro env v
  refine ⟨by decide, .bounded (by decide) (by decide), ?_, by decide⟩
  have hfinite : Extended.isFinite (1 / 0 : Float) = false := by decide
  rw [readVariable_variableForm (by decide), Variable.rebound]
  show some (Variable.mk _ _ (if Extended.isFinite (1 / 0 : Float) then _ else _)
    (if Extended.isFinite (1 / 0 : Float) then _ else _)) = _
  rw [hfinite]
  rfl

end Serial

end DecisionAlgebra
