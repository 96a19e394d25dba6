import DecisionAlgebra.Proofs.Linear.Extraction
import DecisionAlgebra.Proofs.Validity

/-!
# Simplified constraints

Simplifying a constraint brings the variables of every element to the left and the numbers to the
right. The left side is then a simplified polynomial without a constant term and the right side a
number, and a constraint of that shape is not changed any more: the number that comes back from the
right is the only term of degree zero, so it is split off as it was. Both sides have been moved by
the same number, so what the constraint says at a point stays.
-/

namespace DecisionAlgebra

open MvPolynomial (eval)

variable {α : Type}

/-- No term of degree zero, unless the polynomial is a single zero. -/
def Polynomial.LacksConstant [Zero α] (q : Polynomial α) : Prop :=
  q = ⟨[Monomial.constant 0]⟩ ∨ ∀ m ∈ q.monomials, 0 < m.degree

theorem Polynomial.lacksConstant_withoutConstant [Zero α] (p : Polynomial α) :
    p.withoutConstant.LacksConstant := by
  unfold withoutConstant
  split
  next => exact .inl rfl
  next => exact .inr fun m hm => by simpa using (List.mem_filter.mp hm).2

/-! ## Between scalars -/

namespace ScalarConstraint

/-- The variables on the left and the number on the right. -/
def rearranged [Zero α] [One α] [Add α] [Neg α] [Mul α] [BEq α] (c : ScalarConstraint α) :
    ScalarConstraint α :=
  ⟨.polynomial c.split.1, c.sense, .constant c.split.2⟩

variable [CommRing α] [BEq α] [LawfulBEq α]

theorem canonical_split (c : ScalarConstraint α) :
    Polynomial.Canonical c.split.1.monomials :=
  c.canonical_difference.withoutConstant

/-- The variables on the left are simplified already. -/
theorem simplified_split (c : ScalarConstraint α) : c.split.1.simplified = c.split.1 :=
  c.canonical_split.simplified_eq
    (Polynomial.termsIn_withoutConstant (P := fun _ => True) fun m hm =>
      ⟨(c.canonical_difference.normal m hm).length_eq, fun _ _ => trivial⟩).ne_nil

/-- What is on the left has a positive degree and what is on the right has no factors, so a term of
degree zero has none. -/
theorem tellsConstants_rearranged (c : ScalarConstraint α) :
    Polynomial.TellsConstants c.rearranged.difference.monomials := by
  intro m hm hzero
  rcases mem_difference hm with rfl | ⟨hnormal, n, hn, hexp⟩
  · rfl
  · have hnone : n.exponentMap = 0 := by
      rcases List.mem_append.mp hn with hl | hr
      · rcases Polynomial.mem_withoutConstant hl with ⟨hmem, hpos⟩ | rfl
        · -- equal totals are of equal degree
          have hdegree : n.degree = m.degree := by
            rw [Monomial.degree_eq (c.canonical_difference.normal n hmem).length_eq, hexp,
              ← Monomial.degree_eq hnormal.length_eq]
          rw [hdegree, hzero] at hpos
          exact absurd hpos (UInt32.lt_irrefl 0)
        · rfl
      · rw [List.mem_singleton.mp hr]
        rfl
    exact (hnormal.totalsFit.exactMap_eq_iff (Monomial.totalsWithin_constant _ (0 : α))).mpr
      (hexp.symm.trans hnone)

omit [LawfulBEq α] in
theorem inWords_net_rearranged (c : ScalarConstraint α) :
    inWords c.rearranged.net = termsMeaning c.split.1.monomials - .single 0 c.split.2 := by
  rw [net, map_sub, Scalar.inWords_exactMeaning, Scalar.inWords_exactMeaning]
  exact congrArg _ (Scalar.meaning_constant c.split.2)

/-- **A rearranged constraint splits into the sides it has.** -/
theorem split_rearranged (c : ScalarConstraint α) : c.rearranged.split = c.split := by
  have hleft : c.rearranged.split.1 = c.split.1 := by
    show (Polynomial.simplified ⟨c.split.1.monomials ++
      [Monomial.constant (c.split.2 * -1)]⟩).withoutConstant = c.split.1
    rw [Polynomial.withoutConstant_simplified_append, c.simplified_split]
    exact c.difference.withoutConstant_withoutConstant
  -- the number on the right is what the left side differs by from the difference of the sides
  have hright : c.rearranged.split.2 = c.split.2 := by
    have hmeaning := meaning_split c.tellsConstants_rearranged
    rw [hleft, inWords_net_rearranged, sub_add, eq_comm, sub_eq_self, sub_eq_zero] at hmeaning
    exact (AddMonoidAlgebra.single_right_inj.mp hmeaning).symm
  exact Prod.ext hleft hright

theorem rearranged_rearranged (c : ScalarConstraint α) :
    c.rearranged.rearranged = c.rearranged := by
  rw [rearranged, split_rearranged]
  rfl

/-- The variables of one constraint on the left without a constant term, a number on the right, in
the same sense, and true or false wherever the other one is, if its degrees fit in a word. -/
structure IsRearranged [LE α] [DecidableLE α] (c d : ScalarConstraint α) : Prop where
  sense_eq : d.sense = c.sense
  left : ∃ q, d.left = .polynomial q ∧ q.simplified = q ∧ q.LacksConstant
  right : ∃ k, d.right = .constant k
  evaluate : c.DegreesFit → c.PowersWithin → d.PowersWithin → ∀ (p : Point α) (b : Bool),
    c.evaluate p = .ok b → d.evaluate p = .ok b

end ScalarConstraint

theorem ScalarConstraint.isRearranged [CommRing α] [LinearOrder α] [IsStrictOrderedRing α] [BEq α]
    [LawfulBEq α] (c : ScalarConstraint α) : c.IsRearranged c.rearranged where
  sense_eq := rfl
  left := ⟨c.split.1, rfl, c.simplified_split, c.difference.lacksConstant_withoutConstant⟩
  right := ⟨c.split.2, rfl⟩
  evaluate := by
    intro hfit hc hd p b hb
    obtain ⟨hin, rfl⟩ := (evaluate_eq_ok hc).mp hb
    refine (evaluate_eq_ok hd).mpr ⟨⟨hin.split, Scalar.factorsIn_constant _⟩, ?_⟩
    -- both sides have been moved by the same number
    have hleft : eval p.valuation c.rearranged.left.exactMeaning =
        eval p.valuation c.left.exactMeaning - eval p.valuation c.right.exactMeaning +
          c.split.2 := by
      show eval p.valuation (termsExact c.split.1.monomials) = _
      rw [termsExact_split_eq_net hin hfit, net, map_add, map_sub, MvPolynomial.eval_C]
    have hright : eval p.valuation c.rearranged.right.exactMeaning = c.split.2 := by
      show eval p.valuation (Scalar.constant c.split.2).exactMeaning = _
      rw [Scalar.exactMeaning_constant, MvPolynomial.eval_C]
    rw [hleft, hright]
    exact (Sense.holds_add _ _ _ _).symm

/-! ## Of any form -/

namespace Constraint

section Form

variable [Zero α] [One α] [Add α] [Neg α] [Mul α] [BEq α]

/-- The constraint of the same form, shape and sense whose elements are those of the list with
their sides rearranged. -/
def rearranged (c : Constraint α) (cs : List (ScalarConstraint α)) : Constraint α :=
  match c with
  | .scalar c => .scalar c.rearranged
  | .vector c => .vector ⟨.vector .polynomial ⟨cs.map (·.split.1)⟩,
      .vector .constant ⟨cs.map (·.split.2)⟩, c.sense, c.shape⟩
  | .matrix c => .matrix ⟨.matrix .polynomial ⟨c.shape.rows, c.shape.cols, cs.map (·.split.1)⟩,
      .matrix .constant ⟨c.shape.rows, c.shape.cols, cs.map (·.split.2)⟩, c.sense, c.shape⟩

theorem simplified_eq {c : Constraint α} (hc : c.check = .ok ())
    {cs : List (ScalarConstraint α)} (hcs : c.constraints? = some cs) :
    c.simplified = .ok (c.rearranged cs) := by
  rw [simplified, hc, hcs]
  cases c with
  | scalar c =>
    have hsimplified : c.simplified = .ok c.rearranged := unit_bind_eq_ok.mpr ⟨hc, rfl⟩
    show Attempt.checked c.simplified >>= _ = _
    rw [hsimplified]
    rfl
  | vector c => rfl
  | matrix c => rfl

theorem constraints?_rearranged {c : Constraint α} {cs : List (ScalarConstraint α)}
    (hcs : c.constraints? = some cs) (hsense : ∀ d ∈ cs, d.sense = c.sense) :
    (c.rearranged cs).constraints? = some (cs.map (·.rearranged)) := by
  have hlen := length_of_constraints? hcs
  have hgrid : ∀ {l r : Expression α} {sense : Sense} {shape : Shape}, l.form ≠ .scalar →
      r.form ≠ .scalar → l.elements = cs.map (fun d => .polynomial d.split.1) →
      r.elements = cs.map (fun d => .constant d.split.2) → cs.length = shape.size →
      (∀ d ∈ cs, d.sense = sense) →
      (GridConstraint.mk l r sense shape).constraints? = some (cs.map (·.rearranged)) := by
    intro l r sense shape hl hr hls hrs hlen hsense
    have hpairs := Grid.pairs?_of_elements (l := .ofExpression l) (r := .ofExpression r) hl hr
      hls hrs
    rw [GridConstraint.constraints?, ← hlen, hpairs]
    show some ((cs.map _).map _) = _
    rw [List.map_map]
    refine congrArg some (List.map_congr_left fun d hd => ?_)
    rw [ScalarConstraint.rearranged, hsense d hd]
    rfl
  have hvector : Form.vector ≠ .scalar := by decide
  have hmatrix : Form.matrix ≠ .scalar := by decide
  cases c with
  | scalar c =>
    cases hcs
    rfl
  | vector c => exact hgrid hvector hvector (List.map_map ..) (List.map_map ..) hlen hsense
  | matrix c => exact hgrid hmatrix hmatrix (List.map_map ..) (List.map_map ..) hlen hsense

@[simp] theorem form_rearranged (c : Constraint α) (cs : List (ScalarConstraint α)) :
    (c.rearranged cs).form = c.form := by
  cases c <;> rfl

@[simp] theorem shape_rearranged (c : Constraint α) (cs : List (ScalarConstraint α)) :
    (c.rearranged cs).shape = c.shape := by
  cases c <;> rfl

@[simp] theorem sense_rearranged (c : Constraint α) (cs : List (ScalarConstraint α)) :
    (c.rearranged cs).sense = c.sense := by
  cases c <;> rfl

end Form

theorem rearranged_map_rearranged [CommRing α] [BEq α] [LawfulBEq α] (c : Constraint α)
    (cs : List (ScalarConstraint α)) :
    (c.rearranged cs).rearranged (cs.map (·.rearranged)) = c.rearranged cs := by
  have hlefts : (cs.map (·.rearranged)).map (·.split.1) = cs.map (·.split.1) := by
    rw [List.map_map]
    exact List.map_congr_left fun d _ => congrArg Prod.fst d.split_rearranged
  have hrights : (cs.map (·.rearranged)).map (·.split.2) = cs.map (·.split.2) := by
    rw [List.map_map]
    exact List.map_congr_left fun d _ => congrArg Prod.snd d.split_rearranged
  cases c with
  | scalar c => exact congrArg scalar c.rearranged_rearranged
  | vector c =>
    show (vector ⟨.vector .polynomial ⟨_⟩, .vector .constant ⟨_⟩, _, _⟩ : Constraint α) = _
    rw [hlefts, hrights]
    rfl
  | matrix c =>
    show (matrix ⟨.matrix .polynomial ⟨_, _, _⟩, .matrix .constant ⟨_, _, _⟩, _, _⟩ :
      Constraint α) = _
    rw [hlefts, hrights]
    rfl

variable [CommRing α] [LinearOrder α] [IsStrictOrderedRing α] [BEq α] [LawfulBEq α]

end Constraint

end DecisionAlgebra
