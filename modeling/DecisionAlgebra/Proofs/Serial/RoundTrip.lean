import DecisionAlgebra.Proofs.Exponents
import DecisionAlgebra.Proofs.Serial.Fields
import DecisionAlgebra.Serial.Constraint

/-!
# Written expressions and constraints read back

What has been written is read back part by part, so there is one lemma for each type that is
written, and the lemma of a type is put together from those of its fields. Nothing is checked on the
way: lists of different lengths, empty columns and matrices that do not fill their shape come back
as they were. Two things can be lost. A coefficient or constant that is not finite is written as
null and refused; a bound that is not finite is written as null as well and read as no bound on its
side.
-/

namespace DecisionAlgebra

variable {α T : Type}

/-! ## Variables of an expression -/

/-- A variable without bounds where they are not finite. -/
def Variable.rebound [Extended α] (v : Variable α) : Variable α where
  id := v.id
  domain := v.domain
  lower := if Extended.isFinite v.lower then v.lower else Extended.negInfinity
  upper := if Extended.isFinite v.upper then v.upper else Extended.infinity

section MapVars

variable (f : Variable α → Variable α)

/-- The same coefficient and exponents with other variables. -/
def Monomial.mapVars (m : Monomial α) : Monomial α := { m with vars := m.vars.map f }

@[inherit_doc Monomial.mapVars]
def Polynomial.mapVars (p : Polynomial α) : Polynomial α := ⟨p.monomials.map (·.mapVars f)⟩

/-- An entry of a kind with other variables. -/
def Kind.mapVars : (k : Kind) → k.Entry α → k.Entry α
  | .constant, c => c
  | .variable, v => f v
  | .monomial, m => m.mapVars f
  | .polynomial, p => p.mapVars f

/-- A scalar of the same kind with other variables. -/
def Scalar.mapVars : Scalar α → Scalar α
  | .constant c => .constant c
  | .variable v => .variable (f v)
  | .monomial m => .monomial (m.mapVars f)
  | .polynomial p => .polynomial (p.mapVars f)

/-- An expression of the same type and shape with other variables. -/
def Expression.mapVars : Expression α → Expression α
  | .scalar s => .scalar (s.mapVars f)
  | .vector k c => .vector k (c.map (k.mapVars f))
  | .matrix k m => .matrix k (m.map (k.mapVars f))

/-- The same sense between scalars with other variables. -/
def ScalarConstraint.mapVars (c : ScalarConstraint α) : ScalarConstraint α :=
  ⟨c.left.mapVars f, c.sense, c.right.mapVars f⟩

/-- The same sense over the same shape between expressions with other variables. -/
def GridConstraint.mapVars (c : GridConstraint α) : GridConstraint α :=
  ⟨c.left.mapVars f, c.right.mapVars f, c.sense, c.shape⟩

/-- A constraint of the same form between sides with other variables. -/
def Constraint.mapVars : Constraint α → Constraint α
  | .scalar c => .scalar (c.mapVars f)
  | .vector c => .vector (c.mapVars f)
  | .matrix c => .matrix (c.mapVars f)

theorem Scalar.ofEntry_mapVars (k : Kind) (x : k.Entry α) :
    Scalar.ofEntry k (k.mapVars f x) = (Scalar.ofEntry k x).mapVars f := by
  cases k <;> rfl

end MapVars

/-! ## Numbers of an expression -/

theorem Scalar.exists_entry (s : Scalar α) : ∃ k x, s = Scalar.ofEntry k x := by
  cases s with
  | constant c => exact ⟨.constant, c, rfl⟩
  | «variable» v => exact ⟨.variable, v, rfl⟩
  | monomial m => exact ⟨.monomial, m, rfl⟩
  | polynomial p => exact ⟨.polynomial, p, rfl⟩

/-- The coefficients and constants of a scalar. -/
def Scalar.numbers : Scalar α → List α
  | .constant c => [c]
  | .variable _ => []
  | .monomial m => [m.coefficient]
  | .polynomial p => p.monomials.map (·.coefficient)

/-- The coefficients and constants of all elements. -/
def Expression.numbers (e : Expression α) : List α := e.elements.flatMap Scalar.numbers

theorem Expression.forall_numbers_iff {e : Expression α} {P : α → Prop} :
    (∀ y ∈ e.numbers, P y) ↔ ∀ s ∈ e.elements, ∀ y ∈ s.numbers, P y := by
  simp only [numbers, List.mem_flatMap]
  exact ⟨fun h s hs y hy => h y ⟨s, hs, hy⟩, fun h y ⟨s, hs, hy⟩ => h s hs y hy⟩

/-- The coefficients and constants of both sides. -/
def Constraint.numbers (c : Constraint α) : List α := c.left.numbers ++ c.right.numbers

/-! ## Machine words -/

/-- Identifiers are 32-bit numbers. -/
def Monomial.InWords (m : Monomial α) : Prop := ∀ v ∈ m.vars, v.id.index ≤ Serial.maxWord32

@[inherit_doc Monomial.InWords]
def Scalar.InWords : Scalar α → Prop
  | .constant _ => True
  | .variable v => v.id.index ≤ Serial.maxWord32
  | .monomial m => m.InWords
  | .polynomial p => ∀ m ∈ p.monomials, m.InWords

/-- Identifiers are 32-bit numbers, rows and columns 64-bit numbers. -/
structure Expression.InWords (e : Expression α) : Prop where
  rows : e.dims.rows ≤ Serial.maxWord64
  cols : e.dims.cols ≤ Serial.maxWord64
  each : ∀ s ∈ e.elements, s.InWords

/-- Both sides and the recorded shape are made of machine words. -/
structure Constraint.InWords (c : Constraint α) : Prop where
  left : c.left.InWords
  right : c.right.InWords
  rows : c.shape.rows ≤ Serial.maxWord64
  cols : c.shape.cols ≤ Serial.maxWord64

namespace Serial

/-! ## Reading -/

theorem readSense_senseForm (s : Sense) : readSense (senseForm s : Json α) = some s := by
  refine ofTag?_tag (by decide) ?_
  cases s <;> decide

theorem readShape_shapeForm {s : Shape} (hrows : s.rows ≤ maxWord64) (hcols : s.cols ≤ maxWord64) :
    readShape (shapeForm s : Json α) = some s := by
  have hfields : readFields ["rows", "cols"] (shapeForm s : Json α) =
      some [.count s.rows, .count s.cols] := readFields_record rfl (by decide)
  have hread : Reads (readShape (shapeForm s : Json α)) True s :=
    .bind_some hfields (.bind_some (readCount_count hrows) (.bind_some (readCount_count hcols)
      (.pure _)))
  exact (hread s).mpr ⟨trivial, rfl⟩

section Reading

variable [IntCast α] [Extended α]

theorem readBound_number (b x : α) :
    readBound b (number x) = some (if Extended.isFinite x then x else b) := by
  unfold number
  by_cases hx : Extended.isFinite x = true
  · rw [if_pos hx, if_pos hx]
    exact if_pos hx
  · rw [if_neg hx, if_neg hx]
    rfl

/-- **A variable is always read back**, without the bounds that are not finite. -/
theorem readVariable_variableForm {v : Variable α} (hv : v.id.index ≤ maxWord32) :
    readVariable (variableForm v) = some v.rebound := by
  have hfields : readFields ["id", "kind", "lower", "upper"] (variableForm v) =
      some [.count v.id.index, .string (domainTag v.domain), number v.lower, number v.upper] :=
    readFields_record rfl (by decide)
  have hid : readVariableId (.count v.id.index : Json α) = some v.id := by
    rw [readVariableId, readCount_count hv]
    rfl
  have hkind : readTag domainTag domains (.string (domainTag v.domain) : Json α) =
      some v.domain := by
    refine ofTag?_tag (by decide) ?_
    cases v.domain <;> decide
  have hread : Reads (readVariable (variableForm v)) True v.rebound :=
    .bind_some hfields (.bind_some hid (.bind_some hkind
      (.bind_some (readBound_number _ _) (.bind_some (readBound_number _ _) (.pure _)))))
  exact (hread _).mpr ⟨trivial, rfl⟩

omit [IntCast α] [Extended α] in
/-- Every exponent is read back. -/
theorem readWord_wordForm (e : UInt32) : readWord (wordForm e : Json α) = some e := by
  have hle : e.toNat ≤ maxWord32 := Nat.le_of_lt_succ e.toNat_lt
  rw [readWord, wordForm, readCount_count hle, Option.map_some, UInt32.ofNat_toNat]

theorem reads_monomial {m : Monomial α} (hm : m.InWords) :
    Reads (readMonomial (monomialForm m)) (Extended.isFinite m.coefficient = true)
      (m.mapVars Variable.rebound) := by
  have hfields : readFields ["coefficient", "variables", "exponents"] (monomialForm m) =
      some [number m.coefficient, list variableForm m.vars, list wordForm m.exponents] :=
    readFields_record rfl (by decide)
  have hvars : readList readVariable (list variableForm m.vars) =
      some (m.vars.map Variable.rebound) :=
    readList_list fun v hv => readVariable_variableForm (hm v hv)
  have hexponents : readList readWord (list wordForm m.exponents : Json α) =
      some (m.exponents.map id) :=
    readList_list fun e _ => readWord_wordForm e
  rw [List.map_id] at hexponents
  refine .bind_some hfields (.congr (iff_of_eq (and_true _)) ?_)
  exact .bind (reads_number _) (.bind_some hvars (.bind_some hexponents (.pure _)))

theorem reads_polynomial {p : Polynomial α} (hp : ∀ m ∈ p.monomials, m.InWords) :
    Reads (readPolynomial (polynomialForm p))
      (∀ x ∈ p.monomials.map (·.coefficient), Extended.isFinite x = true)
      (p.mapVars Variable.rebound) := by
  have hfields : readFields ["monomials"] (polynomialForm p) =
      some [list monomialForm p.monomials] := readFields_record rfl (by decide)
  have hterms := reads_list fun m hm => reads_monomial (hp m hm)
  refine .bind_some hfields (.congr ?_ (.bind hterms (.pure _)))
  rw [and_true, List.forall_mem_map]

/-- An entry is read back when its numbers are finite. -/
theorem reads_entry {k : Kind} {x : k.Entry α} (hx : (Scalar.ofEntry k x).InWords) :
    Reads (readEntry k (entryForm k x))
      (∀ y ∈ (Scalar.ofEntry k x).numbers, Extended.isFinite y = true)
      (k.mapVars Variable.rebound x) := by
  cases k with
  | constant => exact .congr List.forall_mem_singleton.symm (reads_number x)
  | «variable» =>
    exact .congr ⟨fun _ => nofun, fun _ => trivial⟩ (.of_eq (readVariable_variableForm hx))
  | monomial => exact .congr List.forall_mem_singleton.symm (reads_monomial hx)
  | polynomial => exact reads_polynomial hx

omit [IntCast α] in
/-- Every scalar is written as the entry that it is, under the name of its kind. -/
theorem readVariant_ofEntry (k : Kind) (x : k.Entry α) :
    readVariant (scalarForm (Scalar.ofEntry k x)) = some (k.name, entryForm k x) := by
  cases k <;> rfl

theorem reads_scalar {s : Scalar α} (hs : s.InWords) :
    Reads (readScalar (scalarForm s)) (∀ y ∈ s.numbers, Extended.isFinite y = true)
      (s.mapVars Variable.rebound) := by
  obtain ⟨k, x, rfl⟩ := s.exists_entry
  have htag : ofTag? Kind.name kinds k.name = some k := by
    refine ofTag?_tag (by decide) ?_
    cases k <;> decide
  rw [← Scalar.ofEntry_mapVars]
  refine .bind_some (readVariant_ofEntry k x) (.bind_some htag (.congr (iff_of_eq (and_true _)) ?_))
  exact .bind (reads_entry hs) (.pure _)

theorem reads_column {k : Kind} {c : Column (k.Entry α)}
    (hc : ∀ x ∈ c.entries, (Scalar.ofEntry k x).InWords) :
    Reads (readColumn k (columnForm k c))
      (∀ x ∈ c.entries, ∀ y ∈ (Scalar.ofEntry k x).numbers, Extended.isFinite y = true)
      (c.map (k.mapVars Variable.rebound)) :=
  .congr (iff_of_eq (and_true _)) (.bind (reads_list fun x hx => reads_entry (hc x hx)) (.pure _))

theorem reads_matrix {k : Kind} {m : Matrix (k.Entry α)} (hrows : m.rows ≤ maxWord64)
    (hcols : m.cols ≤ maxWord64) (hm : ∀ x ∈ m.entries, (Scalar.ofEntry k x).InWords) :
    Reads (readMatrix k (matrixForm k m))
      (∀ x ∈ m.entries, ∀ y ∈ (Scalar.ofEntry k x).numbers, Extended.isFinite y = true)
      (m.map (k.mapVars Variable.rebound)) := by
  have hfields : readFields ["rows", "cols", "data"] (matrixForm k m) =
      some [.count m.rows, .count m.cols, list (entryForm k) m.entries] :=
    readFields_record rfl (by decide)
  have hentries := reads_list fun x hx => reads_entry (hm x hx)
  refine .bind_some hfields (.bind_some (readCount_count hrows) (.bind_some (readCount_count hcols)
    (.congr (iff_of_eq (and_true _)) ?_)))
  exact .bind hentries (.pure _)

/-- **An expression is read back exactly when its coefficients and constants are finite**, and then
it differs at most in the bounds of its variables. -/
theorem reads_expression {e : Expression α} (he : e.InWords) :
    Reads (readExpression (expressionForm e)) (∀ y ∈ e.numbers, Extended.isFinite y = true)
      (e.mapVars Variable.rebound) := by
  have htag : ∀ t : Form × Kind, ofTag? typeTag types (typeTag t) = some t := by
    intro t
    obtain ⟨form, k⟩ := t
    refine ofTag?_tag (by decide) ?_
    cases form <;> cases k <;> decide
  refine .congr Expression.forall_numbers_iff.symm ?_
  cases e with
  | scalar s =>
    obtain ⟨k, x, rfl⟩ := s.exists_entry
    have hentry := reads_entry (he.each _ List.mem_cons_self)
    rw [Expression.mapVars, ← Scalar.ofEntry_mapVars]
    refine .bind_some (readVariant_ofEntry k x) (.bind_some (htag (.scalar, k)) ?_)
    exact .congr List.forall_mem_singleton.symm
      (hentry.map fun x => Expression.scalar (Scalar.ofEntry k x))
  | vector k c =>
    have hcolumn := reads_column (List.forall_mem_map.mp he.each)
    refine .bind_some rfl (.bind_some (htag (.vector, k)) ?_)
    exact .congr List.forall_mem_map.symm (hcolumn.map (Expression.vector k))
  | matrix k m =>
    have hmatrix := reads_matrix he.rows he.cols (List.forall_mem_map.mp he.each)
    refine .bind_some rfl (.bind_some (htag (.matrix, k)) ?_)
    exact .congr List.forall_mem_map.symm (hmatrix.map (Expression.matrix k))

/-! ## Reading constraints -/

theorem reads_scalarConstraint {c : ScalarConstraint α} (hl : c.left.InWords)
    (hr : c.right.InWords) :
    Reads (readScalarConstraint (scalarConstraintForm c))
      ((∀ y ∈ c.left.numbers, Extended.isFinite y = true) ∧
        ∀ y ∈ c.right.numbers, Extended.isFinite y = true)
      (c.mapVars Variable.rebound) := by
  have hfields : readFields ["left", "right", "sense"] (scalarConstraintForm c) =
      some [scalarForm c.left, scalarForm c.right, senseForm c.sense] :=
    readFields_record rfl (by decide)
  refine .bind_some hfields (.congr (and_congr_right fun _ => iff_of_eq (and_true _)) ?_)
  exact .bind (reads_scalar hl) (.bind (reads_scalar hr)
    (.bind_some (readSense_senseForm c.sense) (.pure _)))

theorem reads_gridConstraint {c : GridConstraint α} (hl : c.left.InWords) (hr : c.right.InWords)
    (hrows : c.shape.rows ≤ maxWord64) (hcols : c.shape.cols ≤ maxWord64) :
    Reads (readGridConstraint (gridConstraintForm c))
      ((∀ y ∈ c.left.numbers, Extended.isFinite y = true) ∧
        ∀ y ∈ c.right.numbers, Extended.isFinite y = true)
      (c.mapVars Variable.rebound) := by
  have hfields : readFields ["left", "right", "sense", "shape"] (gridConstraintForm c) =
      some [expressionForm c.left, expressionForm c.right, senseForm c.sense, shapeForm c.shape] :=
    readFields_record rfl (by decide)
  refine .bind_some hfields (.congr (and_congr_right fun _ => iff_of_eq (and_true _)) ?_)
  exact .bind (reads_expression hl) (.bind (reads_expression hr)
    (.bind_some (readSense_senseForm c.sense) (.bind_some (readShape_shapeForm hrows hcols)
      (.pure _))))

/-- **A constraint is read back exactly when its coefficients and constants are finite**, with the
shape and the sense that it had. -/
theorem reads_constraint {c : Constraint α} (hc : c.InWords) :
    Reads (readConstraint (constraintForm c)) (∀ y ∈ c.numbers, Extended.isFinite y = true)
      (c.mapVars Variable.rebound) := by
  have htag : ∀ form : Form, ofTag? formTag forms (formTag form) = some form := by
    intro form
    refine ofTag?_tag (by decide) ?_
    cases form <;> decide
  have hnumbers : (∀ y ∈ c.numbers, Extended.isFinite y = true) ↔
      (∀ y ∈ c.left.numbers, Extended.isFinite y = true) ∧
        ∀ y ∈ c.right.numbers, Extended.isFinite y = true := List.forall_mem_append
  refine .congr hnumbers.symm ?_
  cases c with
  | scalar c =>
    have hsides := reads_scalarConstraint (hc.left.each _ List.mem_cons_self)
      (hc.right.each _ List.mem_cons_self)
    refine .bind_some rfl (.bind_some (htag .scalar) (.congr ?_ (hsides.map Constraint.scalar)))
    show _ ↔ (∀ y ∈ [c.left].flatMap Scalar.numbers, _) ∧ ∀ y ∈ [c.right].flatMap Scalar.numbers, _
    rw [List.flatMap_singleton, List.flatMap_singleton]
  | vector c =>
    have hsides := reads_gridConstraint hc.left hc.right hc.rows hc.cols
    exact .bind_some rfl (.bind_some (htag .vector) (hsides.map Constraint.vector))
  | matrix c =>
    have hsides := reads_gridConstraint hc.left hc.right hc.rows hc.cols
    exact .bind_some rfl (.bind_some (htag .matrix) (hsides.map Constraint.matrix))

end Reading

/-! ## Writing again -/

/-- What a bound that is not finite is read as is not finite either. -/
theorem number_ite [Extended α] {b : α} (hb : Extended.isFinite b = false) (x : α) :
    number (if Extended.isFinite x then x else b) = number x := by
  by_cases hx : Extended.isFinite x = true
  · rw [if_pos hx]
  · rw [if_neg hx, number, number, if_neg hx, hb]
    rfl

theorem list_map {write : T → Json α} {f : T → T} {xs : List T}
    (h : ∀ x ∈ xs, write (f x) = write x) : list write (xs.map f) = list write xs := by
  rw [list, List.map_map]
  exact congrArg Json.array (List.map_congr_left h)

section Writing

variable [BEq α] [Extended α] [LawfulExtended α]

theorem variableForm_rebound (v : Variable α) : variableForm v.rebound = variableForm v := by
  show record [_, _, ("lower", number (if _ then _ else _)),
    ("upper", number (if _ then _ else _))] = _
  rw [number_ite LawfulExtended.negInfinity_notFinite, number_ite LawfulExtended.infinity_notFinite]
  rfl

theorem monomialForm_rebound (m : Monomial α) :
    monomialForm (m.mapVars Variable.rebound) = monomialForm m := by
  show record [_, ("variables", list variableForm (m.vars.map _)), _] = _
  rw [list_map fun v _ => variableForm_rebound v]
  rfl

theorem entryForm_rebound (k : Kind) (x : k.Entry α) :
    entryForm k (k.mapVars Variable.rebound x) = entryForm k x := by
  cases k with
  | constant => rfl
  | «variable» => exact variableForm_rebound x
  | monomial => exact monomialForm_rebound x
  | polynomial =>
    show record [("monomials", list monomialForm (x.monomials.map _))] = _
    rw [list_map fun m _ => monomialForm_rebound m]
    rfl

theorem scalarForm_rebound (s : Scalar α) :
    scalarForm (s.mapVars Variable.rebound) = scalarForm s := by
  cases s with
  | constant c => rfl
  | «variable» v => exact congrArg (variant _) (variableForm_rebound v)
  | monomial m => exact congrArg (variant _) (monomialForm_rebound m)
  | polynomial p => exact congrArg (variant _) (entryForm_rebound .polynomial p)

/-- **The bounds that are lost make no difference to what is written.** -/
theorem expressionForm_rebound (e : Expression α) :
    expressionForm (e.mapVars Variable.rebound) = expressionForm e := by
  cases e with
  | scalar s => exact scalarForm_rebound s
  | vector k c =>
    show variant _ (list (entryForm k) (c.entries.map _)) = _
    rw [list_map fun x _ => entryForm_rebound k x]
    rfl
  | matrix k m =>
    show variant _ (record [_, _, ("data", list (entryForm k) (m.entries.map _))]) = _
    rw [list_map fun x _ => entryForm_rebound k x]
    rfl

theorem scalarConstraintForm_rebound (c : ScalarConstraint α) :
    scalarConstraintForm (c.mapVars Variable.rebound) = scalarConstraintForm c := by
  show record [("left", scalarForm (c.left.mapVars _)), ("right", scalarForm (c.right.mapVars _)),
    _] = _
  rw [scalarForm_rebound, scalarForm_rebound]
  rfl

theorem gridConstraintForm_rebound (c : GridConstraint α) :
    gridConstraintForm (c.mapVars Variable.rebound) = gridConstraintForm c := by
  show record [("left", expressionForm (c.left.mapVars _)),
    ("right", expressionForm (c.right.mapVars _)), _, _] = _
  rw [expressionForm_rebound, expressionForm_rebound]
  rfl

theorem constraintForm_rebound (c : Constraint α) :
    constraintForm (c.mapVars Variable.rebound) = constraintForm c := by
  cases c with
  | scalar c => exact congrArg (variant _) (scalarConstraintForm_rebound c)
  | vector c => exact congrArg (variant _) (gridConstraintForm_rebound c)
  | matrix c => exact congrArg (variant _) (gridConstraintForm_rebound c)

end Writing

end Serial

/-! ## Equality -/

theorem map_beq_self [BEq T] {f : T → T} {xs : List T}
    (h : ∀ x ∈ xs, (f x == x) = true) : (xs.map f == xs) = true := by
  induction xs with
  | nil => rfl
  | cons x xs ih =>
    rw [List.map_cons, List.cons_beq_cons, h x List.mem_cons_self,
      ih fun z hz => h z (List.mem_cons_of_mem _ hz)]
    rfl

/-- Variables are compared by identifier. -/
theorem Variable.rebound_beq [Extended α] (v : Variable α) :
    (v.rebound == v) = true := Variable.beq_iff.mpr rfl

section Equality

variable [BEq α] [Extended α] [LawfulExtended α]

theorem Monomial.mapVars_beq {m : Monomial α} (hm : Extended.isFinite m.coefficient = true) :
    (m.mapVars Variable.rebound == m) = true := by
  show (m.coefficient == m.coefficient && m.vars.map Variable.rebound == m.vars &&
    m.exponents == m.exponents) = true
  rw [LawfulExtended.beq_self _ hm, map_beq_self fun v _ => v.rebound_beq, beq_self_eq_true]
  rfl

theorem Polynomial.mapVars_beq {p : Polynomial α}
    (hp : ∀ y ∈ p.monomials.map (·.coefficient), Extended.isFinite y = true) :
    (p.mapVars Variable.rebound == p) = true :=
  map_beq_self fun m hm => m.mapVars_beq (hp _ (List.mem_map_of_mem hm))

theorem Scalar.mapVars_beq {s : Scalar α} (hs : ∀ y ∈ s.numbers, Extended.isFinite y = true) :
    (s.mapVars Variable.rebound == s) = true := by
  cases s with
  | constant c => exact LawfulExtended.beq_self c (hs c List.mem_cons_self)
  | «variable» v => exact v.rebound_beq
  | monomial m => exact m.mapVars_beq (hs _ List.mem_cons_self)
  | polynomial p => exact p.mapVars_beq hs

theorem Kind.mapVars_beq {k : Kind} {x : k.Entry α}
    (hx : ∀ y ∈ (Scalar.ofEntry k x).numbers, Extended.isFinite y = true) :
    (k.mapVars Variable.rebound x == x) = true := by
  cases k with
  | constant => exact LawfulExtended.beq_self x (hx x List.mem_cons_self)
  | «variable» => exact Variable.rebound_beq x
  | monomial => exact Monomial.mapVars_beq (hx _ List.mem_cons_self)
  | polynomial => exact Polynomial.mapVars_beq hx

theorem Expression.mapVars_beq {e : Expression α}
    (he : ∀ y ∈ e.numbers, Extended.isFinite y = true) :
    (e.mapVars Variable.rebound == e) = true := by
  have helements := Expression.forall_numbers_iff.mp he
  cases e with
  | scalar s => exact s.mapVars_beq (helements s List.mem_cons_self)
  | vector k c =>
    have hentries := List.forall_mem_map.mp helements
    show (if h : k = k then c.map _ == h ▸ c else false) = true
    rw [dif_pos rfl]
    exact map_beq_self fun x hx => Kind.mapVars_beq (hentries x hx)
  | matrix k m =>
    have hentries := List.forall_mem_map.mp helements
    show (if h : k = k then m.map _ == h ▸ m else false) = true
    rw [dif_pos rfl]
    show (m.rows == m.rows && m.cols == m.cols && m.entries.map _ == m.entries) = true
    rw [beq_self_eq_true, beq_self_eq_true,
      map_beq_self fun x hx => Kind.mapVars_beq (hentries x hx)]
    rfl

theorem ScalarConstraint.mapVars_beq {c : ScalarConstraint α}
    (hl : ∀ y ∈ c.left.numbers, Extended.isFinite y = true)
    (hr : ∀ y ∈ c.right.numbers, Extended.isFinite y = true) :
    (c.mapVars Variable.rebound == c) = true := by
  show (c.left.mapVars Variable.rebound == c.left && c.right.mapVars Variable.rebound == c.right &&
    c.sense == c.sense) = true
  rw [Scalar.mapVars_beq hl, Scalar.mapVars_beq hr, beq_self_eq_true]
  rfl

theorem GridConstraint.mapVars_beq {c : GridConstraint α}
    (hl : ∀ y ∈ c.left.numbers, Extended.isFinite y = true)
    (hr : ∀ y ∈ c.right.numbers, Extended.isFinite y = true) :
    (c.mapVars Variable.rebound == c) = true := by
  show (c.left.mapVars Variable.rebound == c.left && c.right.mapVars Variable.rebound == c.right &&
    c.sense == c.sense && c.shape == c.shape) = true
  rw [Expression.mapVars_beq hl, Expression.mapVars_beq hr, beq_self_eq_true, beq_self_eq_true]
  rfl

theorem Constraint.mapVars_beq {c : Constraint α}
    (hc : ∀ y ∈ c.numbers, Extended.isFinite y = true) :
    (c.mapVars Variable.rebound == c) = true := by
  obtain ⟨hl, hr⟩ := List.forall_mem_append.mp hc
  cases c with
  | scalar c =>
    exact ScalarConstraint.mapVars_beq
      (Expression.forall_numbers_iff.mp hl c.left List.mem_cons_self)
      (Expression.forall_numbers_iff.mp hr c.right List.mem_cons_self)
  | vector c => exact GridConstraint.mapVars_beq hl hr
  | matrix c => exact GridConstraint.mapVars_beq hl hr

/-! ## The round trip -/

/-- **What has been written is read back.** Of any expression, well-formed or not, what is written
can be read exactly when all its coefficients and constants are finite. What is read is then the
expression itself up to the bounds that are not finite: type, shape, order of the elements,
identifiers, domains, exponents and coefficients are the same, it equals the expression, and it is
written as the expression was. The same holds of constraints, with the shape that they record and
their sense. -/
theorem Serial.round_trip [IntCast α] :
    (∀ e : Expression α, e.InWords →
      ((∃ d, readExpression (expressionForm e) = some d) ↔
        ∀ y ∈ e.numbers, Extended.isFinite y = true) ∧
      ∀ d, readExpression (expressionForm e) = some d →
        d = e.mapVars Variable.rebound ∧ (d == e) = true ∧ expressionForm d = expressionForm e) ∧
    ∀ c : Constraint α, c.InWords →
      ((∃ d, readConstraint (constraintForm c) = some d) ↔
        ∀ y ∈ c.numbers, Extended.isFinite y = true) ∧
      ∀ d, readConstraint (constraintForm c) = some d →
        d = c.mapVars Variable.rebound ∧ (d == c) = true ∧ constraintForm d = constraintForm c := by
  constructor
  · intro e he
    have hread := reads_expression he
    refine ⟨hread.exists_iff, fun d hd => ?_⟩
    obtain ⟨hfinite, rfl⟩ := (hread d).mp hd
    exact ⟨rfl, Expression.mapVars_beq hfinite, expressionForm_rebound e⟩
  · intro c hc
    have hread := reads_constraint hc
    refine ⟨hread.exists_iff, fun d hd => ?_⟩
    obtain ⟨hfinite, rfl⟩ := (hread d).mp hd
    exact ⟨rfl, Constraint.mapVars_beq hfinite, constraintForm_rebound c⟩

end Equality

/-- A matrix of two by three with one entry, whose variable has no exponent, a lower bound at
infinity and an undefined upper bound, is read back and equals itself. A constraint between it and
an infinite number, over a shape that does not fit, cannot be read. -/
theorem Serial.round_trip_malformed :
    let x : Variable Float := ⟨⟨0⟩, .integer, 1 / 0, 0 / 0⟩
    let e : Expression Float := .matrix .monomial ⟨2, 3, [⟨3, [x], []⟩]⟩
    let c : Constraint Float := .vector ⟨e, .constant (1 / 0), .equal, ⟨7, 0⟩⟩
    (∃ d, readExpression (expressionForm e) = some d ∧ (d == e) = true) ∧
      readConstraint (constraintForm c) = none := by
  intro x e c
  obtain ⟨hexpressions, hconstraints⟩ := Serial.round_trip (α := Float)
  have hentry : (Monomial.mk (3 : Float) [x] []).InWords :=
    List.forall_mem_singleton.mpr (by decide)
  have he : e.InWords := ⟨by decide, by decide, List.forall_mem_singleton.mpr hentry⟩
  have hc : c.InWords :=
    ⟨he, ⟨by decide, by decide, List.forall_mem_singleton.mpr trivial⟩, by decide, by decide⟩
  have hfinite : ∀ y ∈ e.numbers, Extended.isFinite y = true := by decide
  have hinfinite : ¬ ∀ y ∈ c.numbers, Extended.isFinite y = true := by decide
  obtain ⟨⟨d, hd⟩, hread⟩ := (hexpressions e he).imp_left fun h => h.mpr hfinite
  refine ⟨⟨d, hd, (hread d hd).2.1⟩, Option.eq_none_iff_forall_ne_some.mpr fun d hd => ?_⟩
  exact hinfinite ((hconstraints c hc).1.mp ⟨d, hd⟩)

end DecisionAlgebra
