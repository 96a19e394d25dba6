import DecisionAlgebra.Proofs.Refusals

/-!
# Subtracting is adding the negated operand

A difference negates the elements of the right operand and combines them as they are. A product with
minus one negates the same elements, but types them, and a sum then takes that apart again. Typing
is where the two could differ, since it lifts elements into one kind. It does not lift these: the
elements of an expression are all of one kind, negating takes kinds to kinds, and elements that are
all of one kind stay as they are. What is left of the difference is the name of the operation, which
an objection to the shapes shows and a value does not.
-/

namespace DecisionAlgebra

variable {α : Type}

/-! ## Kinds of negated scalars -/

/-- The kind of a negated scalar: that of the scalar, but a negated variable is a monomial. -/
def Kind.negated : Kind → Kind
  | .variable => .monomial
  | k => k

theorem Scalar.kind_negated [One α] [Neg α] [Mul α] {s t : Scalar α} (h : s.negated = some t) :
    t.kind = s.kind.negated := by
  cases s with
  | constant c =>
    cases h
    rfl
  | «variable» v | monomial m | polynomial p =>
    simp only [negated, times, asMonomial, Option.map_eq_some_iff] at h
    obtain ⟨_, -, rfl⟩ := h
    rfl

namespace Grid

/-! ## Typing without lifting -/

/-- Elements that are all of one kind are not lifted, so typing a grid of them loses nothing. -/
theorem IsTyped.ofExpression_eq [One α] {g : Grid α} {e : Expression α} {k : Kind}
    (h : g.IsTyped e) (hk : ∀ s ∈ g.elements, s.kind = k) : ofExpression e = g := by
  have hsame : ∀ s ∈ g.elements, s.promote g.kind = s := by
    intro s hs
    have hkind : g.kind = s.kind := by
      refine Kind.joinAll_eq (List.mem_map_of_mem hs) fun a ha => ?_
      obtain ⟨t, ht, rfl⟩ := List.mem_map.mp ha
      rw [hk t ht, hk s hs]
      exact Kind.within_refl k
    rw [hkind, Scalar.promote_kind]
  have helements : e.elements = g.elements := by
    rw [h.elements_eq, List.map_congr_left hsame, List.map_id']
  rw [ofExpression, h.form_eq, h.dims_eq, helements]

/-! ## The name of the operation -/

/-- Where the shapes fit, it does not matter for which operation they are compared. -/
theorem layout_eq {l r : Grid α} (h : l.form = .scalar ∨ r.form = .scalar ∨ l.shape = r.shape)
    (op op' : Operation) : (layout op l r).outcome = (layout op' l r).outcome := by
  unfold layout
  split
  next => rfl
  next => rfl
  next => rfl
  next hlf hrf _ =>
    have hshape : l.shape = r.shape := (h.resolve_left hlf).resolve_left hrf
    rw [if_pos hshape, if_pos hshape]

/-- The three errors for shapes that do not fit name the operation and the shapes; the forms decide
which of them it is. -/
theorem exists_mismatch_eq (l r : Grid α) :
    ∃ mismatch ∈ [Error.shapeMismatch, Error.vectorShapeMismatch, Error.matrixShapeMismatch],
      ∀ op, Grid.mismatch op l r = mismatch op l.shape r.shape := by
  unfold Grid.mismatch
  split
  · exact ⟨.vectorShapeMismatch, by simp, fun _ => rfl⟩
  · exact ⟨.matrixShapeMismatch, by simp, fun _ => rfl⟩
  · exact ⟨.shapeMismatch, by simp, fun _ => rfl⟩

/-- A combination that only the shapes are objected to is one expression for all operations, or is
refused for each of them with an error that names it. -/
theorem combine_of_decidedBy [One α] {f : Scalar α → Scalar α → Option (Scalar α)} {l r : Grid α}
    (h : ∀ op, Attempt.DecidedBy (combine op f l r).outcome
      (misfit? op (l.shape = r.shape) l r)) :
    if l.form = .scalar ∨ r.form = .scalar ∨ l.shape = r.shape then
      ∃ e, ∀ op, (combine op f l r).outcome = .ok e
    else
      ∃ mismatch ∈ [Error.shapeMismatch, Error.vectorShapeMismatch, Error.matrixShapeMismatch],
        ∀ op, (combine op f l r).outcome = Attempt.refuse (mismatch op l.shape r.shape) := by
  split
  next hfits =>
    obtain ⟨e, he⟩ := (h .plus).exists_ok (if_pos hfits)
    refine ⟨e, fun op => ?_⟩
    rw [← he, combine, combine, Traced.outcome_bind, Traced.outcome_bind, layout_eq hfits op .plus]
  next hmisfit =>
    obtain ⟨mismatch, hmem, hmismatch⟩ := exists_mismatch_eq l r
    refine ⟨mismatch, hmem, fun op => ?_⟩
    have hop := h op
    rw [misfit?, if_neg hmisfit, hmismatch op] at hop
    exact hop

end Grid

/-! ## Sums and differences -/

namespace Expression

variable [One α] {l r : Expression α}

theorem outcome_plus [Add α] (hl : l.check = .ok ()) (hr : r.check = .ok ()) :
    (l.plus r).outcome = (Grid.combine .plus (fun a b => some (a.plus b)) (.ofExpression l)
      (.ofExpression r)).outcome := by
  rw [plus, Traced.outcome_bind, checkOperands_eq_ok.mpr ⟨hl, hr⟩]
  rfl

variable [Neg α] [Mul α]

theorem outcome_minus [Add α] {g : Grid α} (hl : l.check = .ok ()) (hr : r.check = .ok ())
    (hg : (Grid.ofExpression r).mapM? Scalar.negated = some g) :
    (l.minus r).outcome =
      (Grid.combine .minus (fun a b => some (a.plus b)) (.ofExpression l) g).outcome := by
  rw [minus, Traced.outcome_bind, checkOperands_eq_ok.mpr ⟨hl, hr⟩, hg]
  rfl

/-- A valid expression can be multiplied by minus one, and the elements of the product are the
negated elements, in their own kind. -/
theorem exists_multiply_minusOne [Zero α] [Add α] [BEq α] (hr : r.check = .ok ()) :
    ∃ n, (r.multiply (.constant (-1))).outcome = .ok n ∧ n.check = .ok () ∧
      (Grid.ofExpression r).mapM? Scalar.negated = some (.ofExpression n) := by
  have hin := check_eq_ok.mp hr
  obtain ⟨g, hg, hgin⟩ := exists_negated hin
  obtain ⟨n, hn, htyped⟩ := Grid.exists_toExpression hgin.toFits
  have hkind : ∀ t ∈ g.elements, t.kind = r.kind.negated := by
    intro t ht
    obtain ⟨s, hs, hst⟩ := exists_of_mem_forall₂ (Grid.mapM?_eq_some.mp hg).2.2 ht
    rw [Scalar.kind_negated hst, kind_of_mem_elements hs]
  refine ⟨n, ?_, check_eq_ok.mpr (htyped.factorsIn hgin.toFits hgin.ne_nil hgin.each), ?_⟩
  · exact (outcome_multiply_scalar hr rfl hg).trans (congrArg Attempt.checked hn)
  · rw [htyped.ofExpression_eq hkind, hg]

end Expression

end DecisionAlgebra
