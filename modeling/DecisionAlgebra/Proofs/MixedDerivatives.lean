import DecisionAlgebra.Proofs.Derivative

/-!
# Mixed derivatives commute

Differentiating by two variables gives the same expression in either order: the same type, and the
same terms with the same factors and coefficients, in the same order. On a term both orders lower
the same factors of its normal form and leave out those that are down to zero. On a scalar both
leave the same terms, and the constant zero where none is left, at whichever step that comes. The
elements of a vector or a matrix are lifted into one kind between the steps, but that is the
constants only, and a lifted constant has the same derivative.

Of the numbers only commutativity of the product is used, for the exponents that come out as factors
of the coefficient. The totals may wrap around: both orders read the same words of the term.
-/

namespace DecisionAlgebra

variable {α : Type}

/-! ## Terms -/

namespace Monomial

/-- The factors that a term is left with: those of its normal form with the variable lowered, and
without those that are down to zero. -/
def lowered (v : Variable α) (fs : List (Variable α × UInt32)) : List (Variable α × UInt32) :=
  (fs.map (lowerFactor v)).filter (0 < ·.2)

theorem lowerFactor_of_ne {v : Variable α} {f : Variable α × UInt32} (h : ¬(f.1 == v) = true) :
    lowerFactor v f = f :=
  if_neg h

theorem lowerFactor_comm (v w : Variable α) (f : Variable α × UInt32) :
    lowerFactor v (lowerFactor w f) = lowerFactor w (lowerFactor v f) := by
  unfold lowerFactor
  by_cases hv : (f.1 == v) = true <;> by_cases hw : (f.1 == w) = true <;> simp [hv, hw]

/-- Lowering by another variable does not bring back what is down to zero. -/
theorem pos_lowerFactor {v w : Variable α} (h : v.id ≠ w.id) {f : Variable α × UInt32}
    (hf : 0 < f.2) (hpos : 0 < (lowerFactor w (lowerFactor v f)).2) :
    0 < (lowerFactor v f).2 := by
  by_cases hv : (f.1 == v) = true
  · have hw : ¬((lowerFactor v f).1 == w) = true := by
      rw [lowerFactor_fst, Variable.beq_iff, Variable.beq_iff.mp hv]
      exact h
    rwa [lowerFactor_of_ne hw] at hpos
  · rwa [lowerFactor_of_ne hv]

/-- A factor that is down to zero stays there, so it need not be left out before the second step. -/
theorem lowered_lowered {v w : Variable α} (h : v.id ≠ w.id) {fs : List (Variable α × UInt32)}
    (hfs : ∀ f ∈ fs, 0 < f.2) :
    lowered w (lowered v fs) = (fs.map (lowerFactor w ∘ lowerFactor v)).filter (0 < ·.2) := by
  rw [lowered, lowered, List.filter_map, List.filter_map, List.filter_map, List.map_map,
    List.filter_filter, List.filter_map]
  refine congrArg (List.map _) (List.filter_congr fun f hf => ?_)
  simp only [Function.comp_apply, Bool.and_eq_left_iff_imp, decide_eq_true_eq]
  exact pos_lowerFactor h (hfs f hf)

theorem lowered_comm {v w : Variable α} (h : v.id ≠ w.id) {fs : List (Variable α × UInt32)}
    (hfs : ∀ f ∈ fs, 0 < f.2) : lowered w (lowered v fs) = lowered v (lowered w fs) := by
  rw [lowered_lowered h hfs, lowered_lowered (Ne.symm h) hfs]
  refine congrArg (List.filter _) (List.map_congr_left fun f _ => ?_)
  exact lowerFactor_comm w v f

section Derivative

variable [NatCast α] [Mul α]

theorem derivative?_eq (m : Monomial α) (v : Variable α) :
    m.derivative? v = if m.exponentOf v = 0 then none
      else some (ofFactors (m.coefficient * ((m.exponentOf v).toNat : α))
        (lowered v m.normalized.factors)) := rfl

/-- A derived term is in normal form. -/
theorem normal_derivative? {m d : Monomial α} {v : Variable α} (hd : m.derivative? v = some d) :
    d.Normal where
  length_eq := length_eq_of_derivative? hd
  nodup := nodup_derivative? hd
  pos := by
    rw [derivative?_eq, if_neg (exponentOf_ne_zero_of_derivative? hd)] at hd
    cases hd
    intro f hf
    rw [factors_ofFactors] at hf
    simpa using (List.mem_filter.mp hf).2

/-- Variables with one identifier are the same to a derivative. -/
theorem derivative?_congr (m : Monomial α) {v w : Variable α} (h : v.id = w.id) :
    m.derivative? v = m.derivative? w := by
  have hbeq : ∀ u : Variable α, (u == v) = (u == w) := fun u =>
    Bool.eq_iff_iff.mpr (by rw [Variable.beq_iff, Variable.beq_iff, h])
  have hlower : (lowerFactor v : Variable α × UInt32 → _) = lowerFactor w := by
    funext f
    rw [lowerFactor, lowerFactor, hbeq]
  rw [derivative?_eq, derivative?_eq, exponentOf_eq, exponentOf_eq, lowered, lowered, h, hlower]

/-- Differentiating by a variable leaves the exponents of the others. -/
theorem exponentOf_derivative? {m d : Monomial α} {v w : Variable α}
    (hd : m.derivative? v = some d) (h : v.id ≠ w.id) : d.exponentOf w = m.exponentOf w := by
  rw [exponentOf_eq, exponentOf_eq, ← exponentMap_derivative? hd, Finsupp.add_apply,
    Finsupp.single_eq_of_ne (Ne.symm h), add_zero]

end Derivative

/-- A second derivative of a term, by another variable than the first one. -/
theorem derivative?_bind [NatCast α] [Mul α] (m : Monomial α) {v w : Variable α}
    (h : v.id ≠ w.id) : (m.derivative? v).bind (·.derivative? w) =
      if m.exponentOf v = 0 ∨ m.exponentOf w = 0 then none
      else some (ofFactors
        (m.coefficient * ((m.exponentOf v).toNat : α) * ((m.exponentOf w).toNat : α))
        (lowered w (lowered v m.normalized.factors))) := by
  by_cases hv : m.exponentOf v = 0
  · rw [derivative?_eq, if_pos hv, if_pos (.inl hv)]
    rfl
  have hderived : m.derivative? v = some (ofFactors
      (m.coefficient * ((m.exponentOf v).toNat : α)) (lowered v m.normalized.factors)) := if_neg hv
  rw [hderived, Option.bind_some, derivative?_eq, exponentOf_derivative? hderived h,
    (normal_derivative? hderived).normalized_eq, factors_ofFactors]
  simp only [hv, false_or]
  rfl

/-- **The mixed derivatives of a term are the same**, and are there or not together. -/
theorem derivative?_comm [NatCast α] [CommSemigroup α] (m : Monomial α) (v w : Variable α) :
    (m.derivative? v).bind (·.derivative? w) = (m.derivative? w).bind (·.derivative? v) := by
  by_cases h : v.id = w.id
  · have hsame : ∀ n : Monomial α, n.derivative? v = n.derivative? w :=
      fun n => n.derivative?_congr h
    simp only [hsame]
  · rw [derivative?_bind m h, derivative?_bind m (Ne.symm h),
      lowered_comm h m.normal_normalized.pos, mul_right_comm]
    simp only [or_comm]

end Monomial

/-! ## Scalars -/

namespace Scalar

variable [Zero α]

/-- The terms as a polynomial, or the constant zero when there are none. -/
def ofTerms : List (Monomial α) → Scalar α
  | [] => constant 0
  | ms => polynomial ⟨ms⟩

variable [One α] [NatCast α]

theorem derivative_monomial [Mul α] (m : Monomial α) (v : Variable α) :
    (monomial m).derivative v = (m.derivative? v).elim (constant 0) monomial := by
  rw [derivative]
  cases m.derivative? v <;> rfl

theorem derivative_polynomial [Mul α] (p : Polynomial α) (v : Variable α) :
    (polynomial p).derivative v = ofTerms (p.monomials.filterMap (·.derivative? v)) := by
  rw [derivative]
  cases p.monomials.filterMap (·.derivative? v) <;> rfl

theorem derivative_ofTerms [Mul α] (ms : List (Monomial α)) (v : Variable α) :
    (ofTerms ms).derivative v = ofTerms (ms.filterMap (·.derivative? v)) := by
  cases ms with
  | nil => rfl
  | cons m ms => exact derivative_polynomial ⟨m :: ms⟩ v

/-- **The mixed derivatives of a scalar are the same.** -/
theorem derivative_comm [CommSemigroup α] (s : Scalar α) (v w : Variable α) :
    (s.derivative v).derivative w = (s.derivative w).derivative v := by
  cases s with
  | constant c => rfl
  | «variable» u => rfl
  | monomial m =>
    have htwice : ∀ a b : Variable α, ((monomial m).derivative a).derivative b =
        ((m.derivative? a).bind (·.derivative? b)).elim (constant 0) monomial := by
      intro a b
      rw [derivative_monomial]
      cases m.derivative? a with
      | none => rfl
      | some d => exact derivative_monomial d b
    rw [htwice, htwice, Monomial.derivative?_comm]
  | polynomial p =>
    simp only [derivative_polynomial, derivative_ofTerms, List.filterMap_filterMap,
      Monomial.derivative?_comm _ v w]

end Scalar

/-! ## Kinds -/

namespace Scalar

variable [Zero α] [One α] [NatCast α] [Mul α]

/-- A derivative is a constant, or of the kind of the scalar, which then is no variable. -/
theorem kind_derivative (s : Scalar α) (v : Variable α) :
    (s.derivative v).kind = .constant ∨ (s.derivative v).kind = s.kind ∧ s.kind ≠ .variable := by
  cases s with
  | constant c => exact .inl rfl
  | «variable» u => exact .inl rfl
  | monomial m =>
    rw [derivative_monomial]
    cases m.derivative? v with
    | none => exact .inl rfl
    | some d => exact .inr ⟨rfl, nofun⟩
  | polynomial p =>
    rw [derivative_polynomial]
    cases p.monomials.filterMap (·.derivative? v) with
    | nil => exact .inl rfl
    | cons d ds => exact .inr ⟨rfl, nofun⟩

/-- A lifted constant has the derivative of a constant. -/
theorem derivative_promote_constant (c : α) (k : Kind) (v : Variable α) :
    ((constant c).promote k).derivative v = constant 0 := by
  cases k <;> rfl

end Scalar

/-! ## Expressions -/

namespace Expression

variable [Zero α] [One α] [NatCast α]

/-- Lifting the derivatives into one kind changes nothing about their derivatives: it only lifts
constants. -/
theorem derivative_promote [Mul α] {e : Expression α} {s : Scalar α} (hs : s ∈ e.elements)
    (v w : Variable α) :
    ((s.derivative v).promote ((Grid.ofExpression e).map (·.derivative v)).kind).derivative w =
      (s.derivative v).derivative w := by
  rcases s.kind_derivative v with hconstant | ⟨hkind, hvariable⟩
  · cases hd : s.derivative v with
    | constant c => exact Scalar.derivative_promote_constant c _ w
    | «variable» | monomial | polynomial => rw [hd] at hconstant; cases hconstant
  -- the derivatives are constants or of the kind of this one, so they are lifted into that
  rw [kind_of_mem_elements hs] at hkind hvariable
  have hjoin : ((Grid.ofExpression e).map (·.derivative v)).kind = (s.derivative v).kind := by
    refine Kind.joinAll_eq (List.mem_map_of_mem (List.mem_map_of_mem hs)) fun a ha => ?_
    obtain ⟨t, ht, rfl⟩ := List.mem_map.mp ha
    obtain ⟨u, hu, rfl⟩ := List.mem_map.mp ht
    rw [hkind]
    rcases u.kind_derivative v with hu' | ⟨hu', -⟩
    · exact hu' ▸ Kind.constant_within hvariable
    · rw [hu', kind_of_mem_elements hu]
      exact Kind.within_refl e.kind
  rw [hjoin, Scalar.promote_kind]

/-- The elements of a second derivative, before they are typed. -/
theorem map_derivative_of_derivativeBy [Mul α] {e d : Expression α} {v : Variable α}
    (h : (e.derivativeBy v).outcome = .ok d) (w : Variable α) :
    (Grid.ofExpression d).map (·.derivative w) =
      (Grid.ofExpression e).map fun s => (s.derivative v).derivative w := by
  obtain ⟨he, -, hd⟩ := derivativeBy_eq_ok.mp h
  have hfits := (Grid.fits_ofExpression (check_eq_ok.mp he).length_eq).map (·.derivative v)
  have htyped := Grid.isTyped_of_toExpression hfits hd
  have helements : d.elements.map (·.derivative w) =
      e.elements.map fun s => (s.derivative v).derivative w := by
    rw [htyped.elements_eq, List.map_map]
    show (e.elements.map (·.derivative v)).map _ = _
    rw [List.map_map]
    exact List.map_congr_left fun s hs => derivative_promote hs v w
  rw [Grid.map, Grid.map]
  show Grid.mk d.form d.dims (d.elements.map (·.derivative w)) = _
  rw [htyped.form_eq, htyped.dims_eq, helements]
  rfl

end Expression

end DecisionAlgebra
