import DecisionAlgebra.Proofs.Linear.Extraction
import Mathlib.Algebra.Order.Ring.Rat

/-!
# Forms and systems say what their constraint says

A linear form is one signed row of a constraint between scalars, a linear system is the signed rows
of all elements. Whether there is one depends on the ordering alone once the sides are linear, and
one that is there is satisfied at a point exactly when the constraint is. The calls differ only in
the senses that they let through.
-/

namespace DecisionAlgebra

open MvPolynomial (eval)

variable {α : Type}

/-! ## What is returned -/

section Returned

variable [CommRing α] [BEq α] [Numeral α] {wrt : Option (List (Variable α))}

theorem ScalarConstraint.toForm_eq_ok {c : ScalarConstraint α} {f : LinearForm α} :
    c.toForm wrt = .ok f ↔ c.isLinear = true ∧
      ∃ r, Constraint.signedRow (c.sense.sign α) (wrt.getD c.occurring) c = .ok r ∧
        f = ⟨r.1, r.2, wrt.getD c.occurring, c.sense.extracted⟩ := by
  have hsides : (Expression.scalar c.left).isLinear = true ∧
      (Expression.scalar c.right).isLinear = true ↔ c.isLinear = true :=
    (Constraint.isLinear_iff (c := .scalar c)).symm
  rw [toForm, unit_bind_eq_ok, unit_bind_eq_ok, Expression.requireLinear_eq_ok,
    Expression.requireLinear_eq_ok, ← and_assoc, hsides]
  refine and_congr_right fun _ => ?_
  rw [bind_eq_ok]
  constructor
  · intro h
    obtain ⟨row, hrow, hf⟩ := h
    refine ⟨_, Constraint.signedRow_eq_ok.mpr ⟨row, Attempt.checked_eq_ok.mp hrow, rfl⟩, ?_⟩
    -- the sign is minus one where the code negates, and one where it leaves the row alone
    cases hsense : c.sense <;> rw [hsense] at hf <;> rw [← pure_eq_ok.mp hf] <;>
      simp [Sense.sign, Sense.extracted]
  · intro h
    obtain ⟨r, hr, rfl⟩ := h
    obtain ⟨row, hrow, rfl⟩ := Constraint.signedRow_eq_ok.mp hr
    refine ⟨row, Attempt.checked_eq_ok.mpr hrow, ?_⟩
    cases hsense : c.sense <;> simp [Sense.sign, Sense.extracted]

namespace Constraint

theorem toSystem_eq_ok {c : Constraint α} {s : LinearSystem α} :
    c.toSystem wrt = .ok s ↔ ∃ cs, c.constraints? = some cs ∧ c.isLinear = true ∧
      ∃ rows, cs.mapM (signedRow (c.sense.sign α) (wrt.getD c.occurring)) = .ok rows ∧
      ∃ d, DenseMatrix.ofRowMajor? cs.length (wrt.getD c.occurring).length
        (rows.flatMap (·.1)) = some d ∧
        s = ⟨d, rows.map (·.2), wrt.getD c.occurring, c.sense.extracted⟩ := by
  rw [toSystem, bind_eq_ok]
  refine exists_congr fun cs => and_congr Attempt.read_eq_ok ?_
  rw [unit_bind_eq_ok, unit_bind_eq_ok, Expression.requireLinear_eq_ok,
    Expression.requireLinear_eq_ok, ← and_assoc, ← isLinear_iff, bind_eq_ok]
  refine and_congr Iff.rfl (exists_congr fun rows => and_congr Attempt.checked_eq_ok ?_)
  rw [bind_eq_ok]
  refine exists_congr fun d => and_congr Attempt.read_eq_ok ?_
  rw [pure_eq_ok]
  exact eq_comm

variable [LawfulBEq α]

theorem exists_toSystem {c : Constraint α} (hc : c.check = .ok ()) (hfit : c.DegreesFit) :
    (∃ s, c.toSystem wrt = .ok s) ↔ c.Extractable wrt := by
  constructor
  · intro h
    obtain ⟨s, hs⟩ := h
    obtain ⟨cs, hcs, hlinear, rows, hrows, -⟩ := toSystem_eq_ok.mp hs
    refine ⟨hlinear, fun ordering hordering => ⟨cs, hcs, fun d hd => ?_⟩⟩
    rw [hordering] at hrows
    obtain ⟨-, hvalid⟩ := linear_elements hc hlinear hcs hd
    exact (exists_signedRow hvalid.factorsIn (hfit.of_mem hc hcs hd)).mp
      (exists_mapM_eq_ok.mp ⟨rows, hrows⟩ d hd)
  · intro h
    obtain ⟨cs, hcs, hnet⟩ := h.listsNet hc
    have hstep : ∀ d ∈ cs, ∃ r, signedRow (c.sense.sign α) (wrt.getD c.occurring) d = .ok r := by
      intro d hd
      obtain ⟨-, hvalid⟩ := linear_elements hc h.1 hcs hd
      exact (exists_signedRow hvalid.factorsIn (hfit.of_mem hc hcs hd)).mpr (hnet d hd)
    obtain ⟨rows, hrows⟩ := exists_mapM_eq_ok.mpr hstep
    obtain ⟨d, hd, -, -⟩ := exists_rowMatrix hrows
    exact ⟨_, toSystem_eq_ok.mpr ⟨cs, hcs, h.1, rows, hrows, d, hd, rfl⟩⟩

theorem exists_toForm {c : ScalarConstraint α} (hc : c.check = .ok ())
    (hfit : (scalar c).DegreesFit) :
    (∃ f, c.toForm wrt = .ok f) ↔ (scalar c).Extractable wrt := by
  have hin := ScalarConstraint.check_eq_ok.mp hc
  have hdfit : c.DegreesFit := hfit.of_mem (c := scalar c) hc rfl (List.mem_singleton_self c)
  constructor
  · intro h
    obtain ⟨f, hf⟩ := h
    obtain ⟨hlinear, r, hr, -⟩ := ScalarConstraint.toForm_eq_ok.mp hf
    refine ⟨hlinear, fun ordering hordering => ⟨[c], rfl, fun d hd => ?_⟩⟩
    rw [hordering] at hr
    rw [List.mem_singleton.mp hd]
    exact (exists_signedRow hin hdfit).mp ⟨r, hr⟩
  · intro h
    obtain ⟨cs, hcs, hnet⟩ := h.listsNet (c := scalar c) hc
    have hmem : c ∈ cs := Option.some.inj hcs ▸ List.mem_singleton_self c
    have hrow : ∃ r, signedRow (c.sense.sign α) (wrt.getD c.occurring) c = .ok r :=
      (exists_signedRow hin hdfit).mpr (hnet c hmem)
    obtain ⟨r, hr⟩ := hrow
    exact ⟨_, ScalarConstraint.toForm_eq_ok.mpr ⟨h.1, r, hr, rfl⟩⟩

end Constraint

end Returned

/-! ## Truth at a point -/

section Satisfied

variable [CommRing α] [LE α] [DecidableLE α] [BEq α]

theorem LinearForm.isSatisfied_eq {f : LinearForm α} {p : Point α} (hp : p.Assigns f.ordering)
    (hlen : f.coefficients.length = f.ordering.length) :
    f.isSatisfied p = .ok (f.sense.holds
      (dot f.coefficients (f.ordering.map (p.valuation ·.id))) f.constant) := by
  rw [isSatisfied, Point.mapM_value_eq hp]
  show (Attempt.read (laneDot? f.coefficients (f.ordering.map (p.valuation ·.id))) >>= _) = _
  rw [laneDot?_eq (by rw [hlen, List.length_map])]
  rfl

/-- A system made of rows holds where all of its rows do. -/
theorem LinearSystem.isSatisfied_eq {s : LinearSystem α} {rows : List (List α × α)} {p : Point α}
    (hp : p.Assigns s.ordering) (hcols : s.coefficients.cols = s.ordering.length)
    (hrows : s.coefficients.toRows = rows.map (·.1)) (hconstants : s.constants = rows.map (·.2)) :
    s.isSatisfied p = .ok (rows.all fun r =>
      s.sense.holds (dot r.1 (s.ordering.map (p.valuation ·.id))) r.2) := by
  rw [isSatisfied, Point.mapM_value_eq hp, hrows, hconstants]
  show (if s.coefficients.cols = (s.ordering.map (p.valuation ·.id)).length then _ else _) = _
  rw [if_pos (by rw [hcols, List.length_map]), List.map_map, List.zip_map', List.all_map]
  simp only [Function.comp_def, rowDot_eq]
  rfl

/-- Where every stored variable has a value, a linear constraint is true or false. -/
theorem Constraint.isSatisfied_eq {c : Constraint α} (hc : c.check = .ok ())
    (hfit : c.DegreesFit) (hlinear : c.isLinear = true) {cs : List (ScalarConstraint α)}
    (hcs : c.constraints? = some cs) {p : Point α} (hp : p.Assigns c.stored) :
    c.isSatisfied p = .ok (cs.all fun d => d.sense.holds (eval p.valuation d.left.exactMeaning)
      (eval p.valuation d.right.exactMeaning)) := by
  obtain ⟨-, -, cs', hcs', helements⟩ := exists_constraints? hc
  obtain rfl : cs' = cs := Option.some.inj (hcs'.symm.trans hcs)
  have hvalue : ∀ d ∈ cs', d.evaluate p = .ok (d.sense.holds
      (eval p.valuation d.left.exactMeaning) (eval p.valuation d.right.exactMeaning)) := by
    intro d hd
    obtain ⟨-, hvalid⟩ := linear_elements hc hlinear hcs hd
    have hassigns := assigns_element hp (helements d hd).2.1 (helements d hd).2.2
    have hpowers := hvalid.powersWithin (hfit.of_mem hc hcs hd)
    exact (ScalarConstraint.evaluate_eq_ok hpowers).mpr
      ⟨ScalarConstraint.factorsIn_gives hvalid.factorsIn hassigns, rfl⟩
  rw [isSatisfied, hcs]
  show Attempt.checked (allHold p cs') = _
  rw [allHold_eq hvalue]
  rfl

end Satisfied

/-! ## Agreement -/

section Ordered

variable [CommRing α] [LinearOrder α] [IsStrictOrderedRing α] [BEq α] [LawfulBEq α] [Numeral α]
  {wrt : Option (List (Variable α))}

/-- A sense, an ordering and a test at points that were extracted from a constraint: the ordering
that was asked for, never greater-or-equal, and true at the points at which the constraint is
satisfied. -/
structure Constraint.Represents (c : Constraint α) (wrt : Option (List (Variable α)))
    (sense : Sense) (ordering : List (Variable α)) (test : Point α → Outcome Bool) : Prop where
  ordering_eq : ordering = wrt.getD c.occurring
  sense_ne : sense ≠ .greaterEqual
  agrees : ∀ p : Point α, p.Assigns ordering → p.Assigns c.stored →
    ∃ b, test p = .ok b ∧ c.isSatisfied p = .ok b

theorem LinearSystem.represents {c : Constraint α} (hc : c.check = .ok ()) (hfit : c.DegreesFit)
    {s : LinearSystem α} (hs : c.toSystem wrt = .ok s) :
    c.Represents wrt s.sense s.ordering s.isSatisfied := by
  obtain ⟨cs, hcs, hlinear, rows, hrows, d, hd, rfl⟩ := Constraint.toSystem_eq_ok.mp hs
  refine ⟨rfl, c.sense.extracted_ne, fun p hordering hstored => ?_⟩
  obtain ⟨d', hd', hcols, htoRows⟩ := Constraint.exists_rowMatrix hrows
  obtain rfl : d' = d := Option.some.inj (hd'.symm.trans hd)
  refine ⟨_, LinearSystem.isSatisfied_eq hordering hcols htoRows rfl, ?_⟩
  rw [Constraint.isSatisfied_eq hc hfit hlinear hcs hstored]
  -- each row says what its element says
  have hwalk : List.Forall₂ (fun d r => c.sense.extracted.holds
      (dot r.1 ((wrt.getD c.occurring).map (p.valuation ·.id))) r.2 =
        d.sense.holds (eval p.valuation d.left.exactMeaning)
          (eval p.valuation d.right.exactMeaning)) cs rows := by
    have hsteps := mapM_eq_ok.mp hrows
    refine List.forall₂_iff_get.mpr ⟨hsteps.length_eq, fun i hi hi' => ?_⟩
    have hmem := cs.get_mem ⟨i, hi⟩
    obtain ⟨hsense, hvalid⟩ := Constraint.linear_elements hc hlinear hcs hmem
    have hstep := hsteps.get hi hi'
    rw [← hsense] at hstep ⊢
    exact Constraint.signedRow_holds hvalid (hfit.of_mem hc hcs hmem) hstep p.valuation
  have hall := congrArg (List.all · id) (map_eq_map_of_forall₂ hwalk)
  simp only [List.all_map] at hall
  exact congrArg Except.ok hall.symm

theorem LinearForm.represents {c : ScalarConstraint α} (hc : c.check = .ok ())
    (hfit : (Constraint.scalar c).DegreesFit) {f : LinearForm α} (hf : c.toForm wrt = .ok f) :
    (Constraint.scalar c).Represents wrt f.sense f.ordering f.isSatisfied := by
  obtain ⟨hlinear, r, hr, rfl⟩ := ScalarConstraint.toForm_eq_ok.mp hf
  refine ⟨rfl, c.sense.extracted_ne, fun p hordering hstored => ?_⟩
  obtain ⟨-, hvalid⟩ := Constraint.linear_elements (c := .scalar c) hc hlinear rfl
    (List.mem_singleton_self c)
  have hdfit : c.DegreesFit := hfit.of_mem (c := .scalar c) hc rfl (List.mem_singleton_self c)
  have hlen := Constraint.length_of_signedRow hr
  have hholds := Constraint.signedRow_holds hvalid hdfit hr p.valuation
  refine ⟨_, LinearForm.isSatisfied_eq hordering hlen, ?_⟩
  rw [Constraint.isSatisfied_eq (c := .scalar c) hc hfit hlinear rfl hstored]
  simp only [List.all_cons, List.all_nil, Bool.and_true]
  exact congrArg Except.ok hholds.symm

end Ordered

/-! ## The calls -/

section Calls

variable [CommRing α] [BEq α] [Numeral α] {wrt : Option (List (Variable α))}

theorem guarded_eq_ok {β : Type} {x y : Except Error Unit} {t : Traced β} {b : β} :
    (do Traced.quiet (Attempt.checked x); Traced.quiet (Attempt.checked y); t : Traced β).outcome =
      .ok b ↔ x = .ok () ∧ y = .ok () ∧ t.outcome = .ok b := by
  rw [Traced.outcome_bind, Traced.outcome_bind, unit_bind_eq_ok, unit_bind_eq_ok,
    Traced.outcome_quiet, Traced.outcome_quiet, Attempt.checked_eq_ok, Attempt.checked_eq_ok]

namespace Constraint

variable {c : Constraint α} {s : LinearSystem α}

theorem linearSystem_eq_ok : (c.linearSystem wrt).outcome = .ok s ↔ c.toSystem wrt = .ok s := by
  simp [linearSystem]

theorem linearRepresentation_eq_ok :
    (c.linearRepresentation wrt).outcome = .ok s ↔ c.check = .ok () ∧ c.toSystem wrt = .ok s := by
  rw [linearRepresentation, Traced.outcome_bind, unit_bind_eq_ok, Traced.outcome_quiet,
    Attempt.checked_eq_ok, linearSystem_eq_ok]

theorem linearInequality_eq_ok :
    (c.linearInequality wrt).outcome = .ok s ↔
      c.check = .ok () ∧ c.sense ≠ .equal ∧ c.toSystem wrt = .ok s := by
  rw [linearInequality, guarded_eq_ok, Sense.requireInequality_eq_ok, Sense.isInequality_iff,
    linearSystem_eq_ok]

theorem linearEquality_eq_ok :
    (c.linearEquality wrt).outcome = .ok s ↔
      c.check = .ok () ∧ c.sense = .equal ∧ c.toSystem wrt = .ok s := by
  rw [linearEquality, guarded_eq_ok, Sense.requireEquality_eq_ok, linearSystem_eq_ok]

end Constraint

namespace ScalarConstraint

variable {c : ScalarConstraint α} {f : LinearForm α}

theorem linearForm_eq_ok : (c.linearForm wrt).outcome = .ok f ↔ c.toForm wrt = .ok f := by
  simp [linearForm]

theorem linearInequality_eq_ok :
    (c.linearInequality wrt).outcome = .ok f ↔
      c.check = .ok () ∧ c.sense ≠ .equal ∧ c.toForm wrt = .ok f := by
  rw [linearInequality, guarded_eq_ok, Sense.requireInequality_eq_ok, Sense.isInequality_iff,
    linearForm_eq_ok]

theorem linearEquality_eq_ok :
    (c.linearEquality wrt).outcome = .ok f ↔
      c.check = .ok () ∧ c.sense = .equal ∧ c.toForm wrt = .ok f := by
  rw [linearEquality, guarded_eq_ok, Sense.requireEquality_eq_ok, linearForm_eq_ok]

end ScalarConstraint

end Calls

/-! ## Linear representations -/

section Ordered

variable [CommRing α] [LinearOrder α] [IsStrictOrderedRing α] [BEq α] [LawfulBEq α] [Numeral α]

end Ordered

end DecisionAlgebra
