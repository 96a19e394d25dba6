import DecisionAlgebra.Proofs.Constraints
import DecisionAlgebra.Proofs.Linear.Coefficients

/-!
# Linear extraction

A linear constraint between scalars is turned into one row of coefficients: the difference of the
sides is linear, the row computes the value of its variables, and the constant is moved to the
right. Multiplying by minus one turns greater-or-equal around. So the row says at every point what
the constraint says, and it exists as soon as the ordering lists the variables that have not
cancelled. The rows of all elements fill a matrix. All of this is said of sides whose degrees fit in
a word: where a degree has wrapped around, a term is taken for a number or for a variable.
-/

namespace DecisionAlgebra

open MvPolynomial (coeff eval)

variable {α : Type} {P : VariableId → Prop}

/-! ## Senses -/

/-- The sense after extraction. -/
def Sense.extracted (s : Sense) : Sense := if s = .greaterEqual then .lessEqual else s

/-- What extraction multiplies both sides by. -/
def Sense.sign (α : Type) [One α] [Neg α] (s : Sense) : α := if s = .greaterEqual then -1 else 1

theorem Sense.extracted_ne (s : Sense) : s.extracted ≠ .greaterEqual := by
  cases s <;> decide

theorem Sense.isInequality_iff {s : Sense} : s.isInequality = true ↔ s ≠ .equal := by
  rw [isInequality, decide_eq_true_eq]

theorem Sense.requireInequality_eq_ok {s : Sense} :
    s.requireInequality = .ok () ↔ s.isInequality = true := by
  unfold requireInequality
  split <;> simp_all

theorem Sense.requireEquality_eq_ok {s : Sense} : s.requireEquality = .ok () ↔ s = .equal := by
  cases s <;> simp [requireEquality, isInequality]

/-! ## Rows -/

namespace ScalarConstraint

/-- Valid sides of degree at most one. -/
structure IsValidLinear [One α] (c : ScalarConstraint α) : Prop where
  factorsIn : c.FactorsIn fun id => id.isDefined = true
  left : c.left.isLinear = true
  right : c.right.isLinear = true

theorem IsValidLinear.powersWithin [One α] {c : ScalarConstraint α} (hc : c.IsValidLinear)
    (hfit : c.DegreesFit) : c.PowersWithin :=
  ⟨hfit.1.powersWithin_of_isLinear hc.factorsIn.left hc.left,
    hfit.2.powersWithin_of_isLinear hc.factorsIn.right hc.right⟩

variable [CommRing α]

/-- Where both sides are linear, so is their difference. -/
theorem IsValidLinear.totalDegree_le {c : ScalarConstraint α} (hc : c.IsValidLinear)
    (hfit : c.DegreesFit) : c.net.totalDegree ≤ 1 := by
  rw [totalDegree_le_iff]
  intro s hs
  -- what has not cancelled has the exponents of a term of a side
  obtain ⟨n, hn, rfl⟩ := exists_term_of_coeff_ne_zero (MvPolynomial.mem_support_iff.mp hs)
  obtain ⟨hnfit, hlength⟩ := degreeFits_of_mem_sides hc.factorsIn hfit hn
  rw [← hnfit.toNat_degree hlength]
  exact (List.mem_append.mp hn).elim (Scalar.isLinear_iff.mp hc.left n)
    (Scalar.isLinear_iff.mp hc.right n)

variable [BEq α] [LawfulBEq α]

/-- There is a row exactly when the ordering lists every variable with a net coefficient. -/
theorem exists_row {c : ScalarConstraint α} (hin : c.FactorsIn P) (hfit : c.DegreesFit)
    {ordering : List (Variable α)} :
    (∃ row, coefficientRow c.split.1.monomials ordering = .ok row) ↔
      ∀ id, c.netCoefficient id ≠ 0 → Lists ordering id := by
  rw [exists_coefficientRow]
  constructor
  · intro h id hid
    obtain ⟨m, hm, v, hv, rfl⟩ := (exists_linearVariable_iff hin hfit).mpr hid
    exact h m hm v hv
  · intro h m hm v hv
    exact h v.id ((exists_linearVariable_iff hin hfit).mp ⟨m, hm, v, hv, rfl⟩)

end ScalarConstraint

theorem Expression.requireLinear_eq_ok [One α] [Neg α] [BEq α] [Numeral α] {side : Side}
    {e : Expression α} : e.requireLinear side = .ok () ↔ e.isLinear = true := by
  unfold requireLinear
  by_cases h : e.isLinear = true
  · rw [if_pos h]
    exact ⟨fun _ => h, fun _ => rfl⟩
  · rw [if_neg h, bind_eq_ok]
    refine ⟨fun hrefused => ?_, fun hlinear => absurd hlinear h⟩
    obtain ⟨_, _, hrefuse⟩ := hrefused
    exact absurd hrefuse Attempt.refuse_ne_ok

namespace Constraint

section Rows

variable [Zero α] [One α] [Add α] [Neg α] [Mul α] [BEq α] {sign : α}
  {ordering : List (Variable α)}

theorem signedRow_eq_ok {c : ScalarConstraint α} {r : List α × α} :
    signedRow sign ordering c = .ok r ↔
      ∃ row, coefficientRow c.split.1.monomials ordering = .ok row ∧
        (row.map (sign * ·), sign * c.split.2) = r := by
  rw [signedRow, bind_eq_ok]
  simp only [pure_eq_ok]

theorem length_of_signedRow {c : ScalarConstraint α} {r : List α × α}
    (h : signedRow sign ordering c = .ok r) : r.1.length = ordering.length := by
  obtain ⟨row, hrow, rfl⟩ := signedRow_eq_ok.mp h
  exact (List.length_map _).trans (length_of_coefficientRow hrow)

/-- The rows of constraints fill a matrix. -/
theorem exists_rowMatrix {cs : List (ScalarConstraint α)} {rows : List (List α × α)}
    (hrows : cs.mapM (signedRow sign ordering) = .ok rows) :
    ∃ d, DenseMatrix.ofRowMajor? cs.length ordering.length (rows.flatMap (·.1)) = some d ∧
      d.cols = ordering.length ∧ d.toRows = rows.map (·.1) := by
  have hwalk := mapM_eq_ok.mp hrows
  have hlen : ∀ r ∈ rows.map (·.1), r.length = ordering.length := by
    intro r hr
    obtain ⟨q, hq, rfl⟩ := List.mem_map.mp hr
    obtain ⟨c, -, hc⟩ := exists_of_mem_forall₂ hwalk hq
    exact length_of_signedRow hc
  obtain ⟨d, hd, -, hcols, htoRows⟩ := DenseMatrix.exists_ofRowMajor? hlen
  rw [List.length_map, ← hwalk.length_eq, ← List.flatMap_def] at hd
  exact ⟨d, hd, hcols, htoRows⟩

end Rows

section Ring

variable [CommRing α]

/-- Every variable with a net coefficient between some elements is in the ordering. -/
def ListsNet (c : Constraint α) (ordering : List (Variable α)) : Prop :=
  ∃ cs, c.constraints? = some cs ∧
    ∀ d ∈ cs, ∀ id, d.netCoefficient id ≠ 0 → Lists ordering id

/-- Linear, and an ordering, if one is given, has every variable with a net coefficient. -/
def Extractable (c : Constraint α) (wrt : Option (List (Variable α))) : Prop :=
  c.isLinear = true ∧ ∀ ordering, wrt = some ordering → c.ListsNet ordering

/-- A list of all occurring variables is an ordering for a constraint. -/
theorem listsNet_of_occurring {c : Constraint α} (hc : c.check = .ok ())
    {ordering : List (Variable α)} (h : ∀ id ∈ c.occurring.map (·.id), Lists ordering id) :
    c.ListsNet ordering := by
  obtain ⟨-, -, cs, hcs, helements⟩ := exists_constraints? hc
  refine ⟨cs, hcs, fun d hd id hid => h id ?_⟩
  obtain ⟨-, hl, hr⟩ := helements d hd
  rw [mem_ids_occurring, Expression.mem_ids_occurring, Expression.mem_ids_occurring]
  exact (ScalarConstraint.mem_occurring_of_netCoefficient hid).imp (fun h => ⟨d.left, hl, h⟩)
    fun h => ⟨d.right, hr, h⟩

theorem Extractable.listsNet {c : Constraint α} {wrt : Option (List (Variable α))}
    (hc : c.check = .ok ()) (h : c.Extractable wrt) : c.ListsNet (wrt.getD c.occurring) := by
  cases wrt with
  | none => exact listsNet_of_occurring hc fun _ hid => hid
  | some ordering => exact h.2 ordering rfl

variable [BEq α] [LawfulBEq α]

/-- There is a row exactly when the ordering lists every variable with a net coefficient. -/
theorem exists_signedRow {c : ScalarConstraint α} (hin : c.FactorsIn P) (hfit : c.DegreesFit)
    {sign : α} {ordering : List (Variable α)} :
    (∃ r, signedRow sign ordering c = .ok r) ↔
      ∀ id, c.netCoefficient id ≠ 0 → Lists ordering id := by
  rw [← ScalarConstraint.exists_row hin hfit]
  simp only [signedRow_eq_ok]
  constructor
  · intro h
    obtain ⟨r, row, hrow, -⟩ := h
    exact ⟨row, hrow⟩
  · intro h
    obtain ⟨row, hrow⟩ := h
    exact ⟨_, row, hrow, rfl⟩

/-- A signed row computes what the sides differ by, up to the sign and the constant. -/
theorem dot_of_signedRow {sign : α} {ordering : List (Variable α)} {c : ScalarConstraint α}
    (hc : c.IsValidLinear) (hfit : c.DegreesFit) {r : List α × α}
    (h : signedRow sign ordering c = .ok r) (x : VariableId → α) :
    r.2 = sign * c.split.2 ∧ dot r.1 (ordering.map (x ·.id)) =
      sign * (eval x c.left.exactMeaning - eval x c.right.exactMeaning + c.split.2) := by
  obtain ⟨row, hrow, rfl⟩ := signedRow_eq_ok.mp h
  have hterms : ∀ m ∈ c.split.1.monomials, m.IsLinearTerm := fun m hm =>
    ScalarConstraint.isLinearTerm_of_mem_split hc.factorsIn hfit (hc.totalDegree_le hfit) hm
  refine ⟨rfl, ?_⟩
  rw [dot_map_mul, dot_of_coefficientRow hterms hrow x,
    ScalarConstraint.termsExact_split_eq_net hc.factorsIn hfit, map_add, MvPolynomial.eval_C,
    ScalarConstraint.net, map_sub]

end Ring

/-- The elements of a constraint have the degrees of its sides. -/
theorem DegreesFit.of_mem [One α] {c : Constraint α} (hfit : c.DegreesFit) (hc : c.check = .ok ())
    {cs : List (ScalarConstraint α)} (hcs : c.constraints? = some cs) {d : ScalarConstraint α}
    (hd : d ∈ cs) : d.DegreesFit := by
  obtain ⟨-, -, cs', hcs', helements⟩ := exists_constraints? hc
  obtain rfl : cs' = cs := Option.some.inj (hcs'.symm.trans hcs)
  obtain ⟨-, hl, hr⟩ := helements d hd
  exact ⟨hfit.1 _ hl, hfit.2 _ hr⟩

/-- The elements of a valid linear constraint are valid linear constraints of its sense. -/
theorem linear_elements [One α] {c : Constraint α} (hc : c.check = .ok ())
    (hlinear : c.isLinear = true) {cs : List (ScalarConstraint α)} (hcs : c.constraints? = some cs)
    {d : ScalarConstraint α} (hd : d ∈ cs) :
    d.sense = c.sense ∧ d.IsValidLinear := by
  obtain ⟨hleft, hright, cs', hcs', helements⟩ := exists_constraints? hc
  obtain rfl : cs' = cs := Option.some.inj (hcs'.symm.trans hcs)
  obtain ⟨hsense, hl, hr⟩ := helements d hd
  obtain ⟨hlinearLeft, hlinearRight⟩ := isLinear_iff.mp hlinear
  exact ⟨hsense, ⟨hleft.each _ hl, hright.each _ hr⟩,
    List.all_eq_true.mp hlinearLeft _ hl, List.all_eq_true.mp hlinearRight _ hr⟩

end Constraint

section Ordered

variable [CommRing α] [LinearOrder α] [IsStrictOrderedRing α] [BEq α] [LawfulBEq α]

/-- Moving a number to both sides changes no relation. -/
theorem Sense.holds_add (s : Sense) (l r k : α) : s.holds (l - r + k) k = s.holds l r := by
  rw [Bool.eq_iff_iff]
  cases s with
  | lessEqual => rw [lessEqual_holds, lessEqual_holds, add_le_iff_nonpos_left, sub_nonpos]
  | greaterEqual =>
    rw [greaterEqual_holds, greaterEqual_holds, le_add_iff_nonneg_left, sub_nonneg]
  | equal => rw [equal_holds, equal_holds, add_eq_right, sub_eq_zero]

omit [LawfulBEq α] in
/-- Changing all signs turns greater-or-equal into less-or-equal. -/
theorem Sense.holds_neg (l r : α) : lessEqual.holds (-l) (-r) = greaterEqual.holds l r := by
  rw [Bool.eq_iff_iff, lessEqual_holds, greaterEqual_holds, neg_le_neg_iff]

omit [LawfulBEq α] in
theorem Sense.holds_extracted (s : Sense) (l r : α) :
    s.extracted.holds (s.sign α * l) (s.sign α * r) = s.holds l r := by
  cases s with
  | greaterEqual =>
    show Sense.lessEqual.holds (-1 * l) (-1 * r) = _
    rw [neg_one_mul, neg_one_mul, Sense.holds_neg]
  | lessEqual =>
    show Sense.lessEqual.holds (1 * l) (1 * r) = _
    rw [one_mul, one_mul]
  | equal =>
    show Sense.equal.holds (1 * l) (1 * r) = _
    rw [one_mul, one_mul]

/-! ## Rows at a point -/

/-- **A row of a linear constraint says at every point what the constraint says.** -/
theorem Constraint.signedRow_holds {c : ScalarConstraint α} (hc : c.IsValidLinear)
    (hfit : c.DegreesFit) {ordering : List (Variable α)} {r : List α × α}
    (h : signedRow (c.sense.sign α) ordering c = .ok r) (x : VariableId → α) :
    c.sense.extracted.holds (dot r.1 (ordering.map (x ·.id))) r.2 =
      c.sense.holds (eval x c.left.exactMeaning) (eval x c.right.exactMeaning) := by
  obtain ⟨hconstant, hdot⟩ := dot_of_signedRow hc hfit h x
  rw [hconstant, hdot, Sense.holds_extracted, Sense.holds_add]

end Ordered

end DecisionAlgebra
