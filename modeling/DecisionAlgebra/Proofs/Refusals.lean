import DecisionAlgebra.Proofs.Validity

/-!
# What the operators refuse, and why

`Validity` says what holds of a value that an operator ends with. Here is said when there is one,
and otherwise for which cause the operator refuses: the objections to two operands are made one
after the other, to the left operand, to the right one, and to their shapes, and the first of them
is the answer. Nothing else can go wrong on the way. A scalar fits everything, every place of a
result has its elements, and there is always a type that holds them. No law of numbers is used.
-/

namespace DecisionAlgebra

variable {ε α β : Type} {P : VariableId → Prop}

/-! ## Calls decided by an objection -/

namespace Attempt

/-- The call is refused for the objection if there is one, and otherwise ends with a value. -/
def DecidedBy (x : Attempt ε α) : Option ε → Prop
  | none => ∃ a, x = .ok a
  | some e => x = refuse e

theorem decidedBy_ok (a : α) : DecidedBy (.ok a : Attempt ε α) none := ⟨a, rfl⟩

/-- A call to which there is no objection has a value. -/
theorem DecidedBy.exists_ok {x : Attempt ε α} {o : Option ε} (h : DecidedBy x o) (ho : o = none) :
    ∃ a, x = .ok a := by
  rw [ho] at h
  exact h

/-- Of two calls made one after the other, the second is only heard if the first has a value. -/
theorem DecidedBy.bind {x : Attempt ε α} {f : α → Attempt ε β} {o p : Option ε}
    (hx : DecidedBy x o) (hf : ∀ a, x = .ok a → DecidedBy (f a) p) :
    DecidedBy (x >>= f) (o <|> p) := by
  cases o with
  | none =>
    obtain ⟨a, ha⟩ := hx
    rw [ha]
    exact hf a ha
  | some e =>
    have hrefused : x = refuse e := hx
    rw [hrefused]
    rfl

/-- What comes after a call and always has a value makes no objection. -/
theorem DecidedBy.bind_ok {x : Attempt ε α} {f : α → Attempt ε β} {o : Option ε}
    (hx : DecidedBy x o) (hf : ∀ a, x = .ok a → ∃ b, f a = .ok b) : DecidedBy (x >>= f) o := by
  have h : DecidedBy (x >>= f) (o <|> none) := hx.bind hf
  cases o <;> exact h

theorem checked_bind (x : Except ε α) (f : α → Except ε β) :
    (checked (x >>= f) : Attempt ε β) = checked x >>= fun a => checked (f a) := by
  cases x <;> rfl

/-- The first objection to the elements of a list. -/
theorem findSome?_cons_orElse (o : α → Option ε) (x : α) (xs : List α) :
    (x :: xs).findSome? o = (o x <|> xs.findSome? o) := by
  rw [List.findSome?_cons]
  cases o x <;> rfl

/-- A walk is decided by the first objection on its way. -/
theorem decidedBy_foldlM {f : β → α → Except ε β} {o : α → Option ε}
    (hf : ∀ b x, DecidedBy (checked (f b x)) (o x)) (xs : List α) :
    ∀ b, DecidedBy (checked (xs.foldlM f b)) (xs.findSome? o) := by
  induction xs with
  | nil => intro b; exact decidedBy_ok b
  | cons x xs ih =>
    intro b
    rw [List.foldlM_cons, checked_bind, findSome?_cons_orElse]
    exact (hf b x).bind fun c _ => ih c

theorem decidedBy_mapM {f : α → Except ε β} {o : α → Option ε}
    (hf : ∀ x, DecidedBy (checked (f x)) (o x)) (xs : List α) :
    DecidedBy (checked (xs.mapM f)) (xs.findSome? o) := by
  induction xs with
  | nil => exact decidedBy_ok []
  | cons x xs ih =>
    rw [List.mapM_cons, checked_bind, findSome?_cons_orElse]
    refine (hf x).bind fun y _ => ?_
    rw [checked_bind]
    exact ih.bind_ok fun ys _ => ⟨y :: ys, rfl⟩

end Attempt

open Attempt (DecidedBy)

/-! ## Objections -/

/-- The causes for which a check refuses. -/
def Error.isMalformed : Error → Bool
  | undefinedVariable => true
  | degreeMismatch .. => true
  | emptyPolynomial => true
  | emptyVector => true
  | emptyMatrix => true
  | raggedRow .. => true
  | _ => false

/-- The causes for which the check of a scalar refuses. -/
def Error.isMalformedScalar : Error → Bool
  | undefinedVariable => true
  | degreeMismatch .. => true
  | emptyPolynomial => true
  | _ => false

theorem Error.isMalformed_of_isMalformedScalar {e : Error} (h : e.isMalformedScalar = true) :
    e.isMalformed = true := by
  cases e <;> first | rfl | cases h

namespace Expression

/-- The objection to an operand: that its check fails, with the error of the check. -/
def invalidity? (op : Operation) (side : Side) (e : Expression α) : Option Error :=
  match e.check with
  | .ok () => none
  | .error source => some (.invalidOperand op side source)

/-- The error for shapes that do not fit: of two vectors, of two matrices, or of one of each. -/
def misfit (op : Operation) (l r : Expression α) : Error :=
  if l.form = .vector ∧ r.form = .vector then .vectorShapeMismatch op l.dims r.dims
  else if l.form = .matrix ∧ r.form = .matrix then .matrixShapeMismatch op l.dims r.dims
  else .shapeMismatch op l.dims r.dims

/-- The objection to the shapes of two operands, when they fit in the sense given. Scalars always
fit. -/
def misfit? (op : Operation) (fits : Prop) [Decidable fits] (l r : Expression α) : Option Error :=
  if l.isScalar ∨ r.isScalar ∨ fits then none else some (misfit op l r)

/-- The first objection to two operands. -/
def objection? (op : Operation) (fits : Prop) [Decidable fits] (l r : Expression α) :
    Option Error :=
  invalidity? op .left l <|> invalidity? op .right r <|> misfit? op fits l r

end Expression

/-! ## Checks -/

theorem Monomial.isMalformedScalar_of_checkVariable {v : Variable α} {e : Error}
    (h : checkVariable v = .error e) : e.isMalformedScalar = true := by
  unfold checkVariable at h
  split at h <;> cases h
  rfl

theorem Monomial.isMalformedScalar_of_check {m : Monomial α} {e : Error}
    (h : m.check = .error e) : e.isMalformedScalar = true := by
  unfold check at h
  split at h
  · obtain ⟨v, -, hv⟩ := forM_eq_error h
    exact isMalformedScalar_of_checkVariable hv
  · cases h
    rfl

theorem Polynomial.isMalformedScalar_of_check {p : Polynomial α} {e : Error}
    (h : p.check = .error e) : e.isMalformedScalar = true := by
  unfold check at h
  split at h
  · cases h
    rfl
  · obtain ⟨m, -, hm⟩ := forM_eq_error h
    exact m.isMalformedScalar_of_check hm

theorem Scalar.isMalformedScalar_of_check {s : Scalar α} {e : Error}
    (h : s.check = .error e) : e.isMalformedScalar = true := by
  cases s with
  | constant c => cases h
  | «variable» v => exact Monomial.isMalformedScalar_of_checkVariable h
  | monomial m => exact m.isMalformedScalar_of_check h
  | polynomial p => exact p.isMalformedScalar_of_check h

namespace Expression

theorem isMalformed_of_check {e : Expression α} {c : Error} (h : e.check = .error c) :
    c.isMalformed = true := by
  have hentries : ∀ {k : Kind} {xs : List (k.Entry α)}, xs.forM k.checkEntry = .error c →
      c.isMalformed = true := by
    intro k xs hxs
    obtain ⟨x, -, hx⟩ := forM_eq_error hxs
    exact Error.isMalformed_of_isMalformedScalar (Scalar.isMalformedScalar_of_check hx)
  cases e with
  | scalar s => exact Error.isMalformed_of_isMalformedScalar (s.isMalformedScalar_of_check h)
  | vector k c =>
    rw [check, Column.check] at h
    split at h
    · cases h
      rfl
    · exact hentries h
  | matrix k m =>
    rw [check] at h
    rcases m.check_cases k.checkEntry with ⟨-, hm⟩ | ⟨-, -, hm⟩ | ⟨-, -, hm⟩
    · cases hm.symm.trans h
      rfl
    · exact hentries (hm.symm.trans h)
    · cases hm.symm.trans h
      rfl

theorem decidedBy_checkOperand (op : Operation) (side : Side) (e : Expression α) :
    DecidedBy (e.checkOperand op side).outcome (invalidity? op side e) := by
  unfold checkOperand invalidity?
  cases e.check with
  | ok => exact Attempt.decidedBy_ok ()
  | error source => rfl

theorem decidedBy_checkOperands (op : Operation) (l r : Expression α) :
    DecidedBy (checkOperands op l r).outcome
      (invalidity? op .left l <|> invalidity? op .right r) := by
  rw [checkOperands, Traced.outcome_bind]
  exact (decidedBy_checkOperand op .left l).bind fun _ _ => decidedBy_checkOperand op .right r

/-- After the checks only the shapes can be objected to, and both operands are well-formed. -/
theorem decidedBy_operator [One α] {op : Operation} {fits : Prop} [Decidable fits]
    {l r : Expression α} {f : Unit → Traced β}
    (hf : l.FactorsIn (fun id => id.isDefined = true) →
      r.FactorsIn (fun id => id.isDefined = true) →
        DecidedBy (f ()).outcome (misfit? op fits l r)) :
    DecidedBy (checkOperands op l r >>= f).outcome (objection? op fits l r) := by
  have hchecks := ensures_checkOperands op l r
  have hassoc : objection? op fits l r =
      ((invalidity? op .left l <|> invalidity? op .right r) <|> misfit? op fits l r) := by
    unfold objection?
    cases invalidity? op .left l <;> rfl
  rw [hassoc, Traced.outcome_bind]
  refine (decidedBy_checkOperands op l r).bind fun u hu => ?_
  exact hf (hchecks.value u hu).1 (hchecks.value u hu).2

end Expression

/-! ## Shapes -/

namespace Grid

/-- The objection to the shapes of two grids, when they fit in the sense given. -/
def misfit? (op : Operation) (fits : Prop) [Decidable fits] (l r : Grid α) : Option Error :=
  if l.form = .scalar ∨ r.form = .scalar ∨ fits then none else some (mismatch op l r)

theorem misfit?_of_scalar {op : Operation} {fits : Prop} [Decidable fits] {l r : Grid α}
    (h : l.form = .scalar ∨ r.form = .scalar) : misfit? op fits l r = none :=
  if_pos (h.imp_right .inl)

theorem misfit?_of_fits {op : Operation} {fits : Prop} [Decidable fits] {l r : Grid α}
    (h : fits) : misfit? op fits l r = none :=
  if_pos (.inr (.inr h))

theorem misfit?_of_not_fits {op : Operation} {fits : Prop} [Decidable fits] {l r : Grid α}
    (hl : l.form ≠ .scalar) (hr : r.form ≠ .scalar) (h : ¬fits) :
    misfit? op fits l r = some (mismatch op l r) := by
  refine if_neg ?_
  rintro (hls | hrs | hfits)
  · exact hl hls
  · exact hr hrs
  · exact h hfits

end Grid

theorem Expression.misfit?_eq (op : Operation) (fits : Prop) [Decidable fits]
    (l r : Expression α) :
    misfit? op fits l r = Grid.misfit? op fits (.ofExpression l) (.ofExpression r) := by
  have hmismatch : misfit op l r = Grid.mismatch op (.ofExpression l) (.ofExpression r) := by
    cases l <;> cases r <;> rfl
  simp only [misfit?, isScalar_iff, hmismatch]
  rfl

namespace Grid

theorem decidedBy_layout (op : Operation) (l r : Grid α) :
    DecidedBy (layout op l r).outcome (misfit? op (l.shape = r.shape) l r) := by
  unfold layout
  split
  next hlf hrf => rw [misfit?_of_scalar (.inl hlf)]; exact Attempt.decidedBy_ok _
  next hlf _ => rw [misfit?_of_scalar (.inl hlf)]; exact Attempt.decidedBy_ok _
  next hrf _ => rw [misfit?_of_scalar (.inr hrf)]; exact Attempt.decidedBy_ok _
  next hlf hrf _ =>
    by_cases hshape : l.shape = r.shape
    · rw [if_pos hshape, misfit?_of_fits hshape]
      exact Attempt.decidedBy_ok _
    · rw [if_neg hshape, misfit?_of_not_fits hlf hrf hshape]
      rfl

/-- Only two scalars are laid out as a scalar. -/
theorem scalars_of_layout {op : Operation} {l r : Grid α} {shape : Shape}
    (h : (layout op l r).outcome = .ok (.scalar, shape)) : l.form = .scalar ∧ r.form = .scalar := by
  unfold layout at h
  split at h
  next hlf hrf => exact ⟨hlf, hrf⟩
  next _ hrf => exact absurd (congrArg Prod.fst (Except.ok.inj h)) hrf
  next hlf => exact absurd (congrArg Prod.fst (Except.ok.inj h)) hlf
  next =>
    split at h
    · have hform := congrArg Prod.fst (Except.ok.inj h)
      split at hform <;> cases hform
    · cases h

variable [One α]

/-- Combining two well-formed grids only meets the objection to their shapes. -/
theorem decidedBy_combine {op : Operation} {f : Scalar α → Scalar α → Option (Scalar α)}
    {l r : Grid α} (hl : l.FactorsIn P) (hr : r.FactorsIn P)
    (hf : ∀ a b, a.FactorsIn P → b.FactorsIn P → ∃ s, f a b = some s ∧ s.FactorsIn P) :
    DecidedBy (combine op f l r).outcome (misfit? op (l.shape = r.shape) l r) := by
  rw [combine, Traced.outcome_bind]
  refine (decidedBy_layout op l r).bind_ok fun fs hfs => ?_
  have hlayout := (ensures_layout hl.toFits hr.toFits).value fs hfs
  obtain ⟨ps, es, e, hps, hes, he⟩ := exists_combined hl hr hlayout hf
  refine ⟨e, ?_⟩
  rw [Traced.outcome_quiet, hps]
  show Attempt.read (ps.mapM fun p => f p.1 p.2) >>= _ = _
  rw [hes]
  show Attempt.checked (toExpression ⟨fs.1, fs.2, es⟩) = _
  rw [he]
  rfl

end Grid

namespace Expression

variable [One α]

theorem decidedBy_combine_plus [Add α] (op : Operation) {l : Expression α} {g : Grid α}
    (hl : l.FactorsIn P) (hg : g.FactorsIn P) :
    DecidedBy (Grid.combine op (fun a b => some (a.plus b)) (.ofExpression l) g).outcome
      (Grid.misfit? op (l.dims = g.shape) (.ofExpression l) g) :=
  Grid.decidedBy_combine (Grid.factorsIn_ofExpression hl) hg fun _ _ ha hb => ⟨_, rfl, ha.plus hb⟩

theorem decidedBy_plus [Add α] (l r : Expression α) :
    DecidedBy (l.plus r).outcome (objection? .plus (l.dims = r.dims) l r) := by
  refine decidedBy_operator fun hl hr => ?_
  rw [misfit?_eq]
  exact decidedBy_combine_plus .plus hl (Grid.factorsIn_ofExpression hr)

theorem decidedBy_minus [Add α] [Neg α] [Mul α] (l r : Expression α) :
    DecidedBy (l.minus r).outcome (objection? .minus (l.dims = r.dims) l r) := by
  refine decidedBy_operator fun hl hr => ?_
  obtain ⟨g, hg, hgin⟩ := exists_negated hr
  -- negating keeps form and shape, on which alone the objection depends
  obtain ⟨hform, hshape, -⟩ := Grid.mapM?_eq_some.mp hg
  have hcombine := decidedBy_combine_plus .minus hl hgin
  rw [Grid.misfit?, Grid.mismatch, hform, hshape] at hcombine
  rw [misfit?_eq, hg]
  exact hcombine

/-! ## Products -/

theorem decidedBy_combine_times [Mul α] (op : Operation) {l r : Expression α}
    (hl : l.FactorsIn P) (hr : r.FactorsIn P) :
    DecidedBy (Grid.combine op Scalar.times (.ofExpression l) (.ofExpression r)).outcome
      (Grid.misfit? op (l.dims = r.dims) (.ofExpression l) (.ofExpression r)) := by
  refine Grid.decidedBy_combine (Grid.factorsIn_ofExpression hl) (Grid.factorsIn_ofExpression hr)
    fun a b ha hb => ?_
  obtain ⟨s, hs, hin, -⟩ := Scalar.exists_times ha hb
  exact ⟨s, hs, hin⟩

section Product

variable [Zero α] [Add α] [Mul α] [BEq α]

theorem decidedBy_matrixProduct {l r : Expression α} (hl : l.FactorsIn P) (hr : r.FactorsIn P)
    (hls : l.form ≠ .scalar) (hrs : r.form ≠ .scalar) :
    DecidedBy (matrixProduct (.ofExpression l) (.ofExpression r)).outcome
      (Grid.misfit? .multiply (l.dims.cols = r.dims.rows) (.ofExpression l) (.ofExpression r)) := by
  unfold matrixProduct
  split
  next hinner =>
    have hfits : l.dims.cols = r.dims.rows := hinner
    obtain ⟨es, hes, hgrid⟩ := exists_productGrid hl hr hfits
    obtain ⟨e, he, -⟩ := Grid.exists_toExpression hgrid.toFits
    rw [Grid.misfit?_of_fits hfits, Traced.outcome_quiet, hes]
    exact ⟨e, congrArg Attempt.checked he⟩
  next hinner =>
    have hmisfit : ¬l.dims.cols = r.dims.rows := hinner
    rw [Grid.misfit?_of_not_fits (l := .ofExpression l) hls hrs hmisfit]
    rfl

theorem decidedBy_multiply (l r : Expression α) :
    DecidedBy (l.multiply r).outcome (objection? .multiply (l.dims.cols = r.dims.rows) l r) := by
  refine decidedBy_operator fun hl hr => ?_
  rw [misfit?_eq]
  split
  next hscalar =>
    rw [Bool.or_eq_true, isScalar_iff, isScalar_iff] at hscalar
    have hcombine := decidedBy_combine_times .multiply hl hr
    rw [Grid.misfit?_of_scalar hscalar] at hcombine ⊢
    exact hcombine
  next hscalar =>
    rw [Bool.or_eq_true, isScalar_iff, isScalar_iff, not_or] at hscalar
    exact decidedBy_matrixProduct hl hr hscalar.1 hscalar.2

end Product

/-! ## Comparisons -/

theorem decidedBy_compare (l r : Expression α) (sense : Sense) :
    DecidedBy (l.compare r sense).outcome (objection? .comparison (l.dims = r.dims) l r) := by
  refine decidedBy_operator fun hl hr => ?_
  rw [misfit?_eq, Traced.outcome_bind]
  refine (Grid.decidedBy_layout .comparison _ _).bind_ok fun fs hfs => ?_
  obtain ⟨form, shape⟩ := fs
  cases form with
  | scalar =>
    obtain ⟨hlf, hrf⟩ := Grid.scalars_of_layout hfs
    cases l with
    | scalar a =>
      cases r with
      | scalar b => exact ⟨_, rfl⟩
      | vector | matrix => cases hrf
    | vector | matrix => cases hlf
  | vector => exact ⟨_, rfl⟩
  | matrix => exact ⟨_, rfl⟩

end Expression

/-! ## The operators -/

theorem Error.code_of_isMalformed {e : Error} (h : e.isMalformed = true) :
    e.rootCause.code ≠ "INPUT_UNSUPPORTED" ∧ e.rootCause.code ≠ "INDEX_OUT_OF_BOUNDS" := by
  cases e <;> simp_all [isMalformed, rootCause, code]

namespace Expression

theorem invalidity?_eq_none {op : Operation} {side : Side} {e : Expression α} :
    invalidity? op side e = none ↔ e.check = .ok () := by
  unfold invalidity?
  split
  next h => exact ⟨fun _ => h, fun _ => rfl⟩
  next source h => rw [h]; exact ⟨nofun, nofun⟩

/-- There is no objection to valid operands that fit. -/
theorem objection?_eq_none {op : Operation} {fits : Prop} [Decidable fits] {l r : Expression α}
    (hl : l.check = .ok ()) (hr : r.check = .ok ()) (h : l.isScalar ∨ r.isScalar ∨ fits) :
    objection? op fits l r = none := by
  rw [objection?, invalidity?_eq_none.mpr hl, invalidity?_eq_none.mpr hr, misfit?, if_pos h]
  rfl

/-- An objection is the error of a check, said of an operand, or names both shapes. -/
theorem cause_of_objection {op : Operation} {fits : Prop} [Decidable fits] {l r : Expression α}
    {e : Error} (h : objection? op fits l r = some e) :
    (∃ side source, e = .invalidOperand op side source ∧ source.isMalformed = true) ∨
      e = misfit op l r := by
  have hinvalid : ∀ {side : Side} {x : Expression α}, invalidity? op side x = some e →
      ∃ side source, e = .invalidOperand op side source ∧ source.isMalformed = true := by
    intro side x hx
    unfold invalidity? at hx
    split at hx
    next => cases hx
    next source hsource =>
      cases hx
      exact ⟨side, source, rfl, isMalformed_of_check hsource⟩
  unfold objection? at h
  cases hl : invalidity? op .left l with
  | some d =>
    rw [hl] at h
    exact .inl (hinvalid (hl.trans h))
  | none =>
    cases hr : invalidity? op .right r with
    | some d =>
      rw [hl, hr] at h
      exact .inl (hinvalid (hr.trans h))
    | none =>
      rw [hl, hr] at h
      have hmisfit : misfit? op fits l r = some e := h
      unfold misfit? at hmisfit
      split at hmisfit <;> cases hmisfit
      exact .inr rfl

theorem code_of_objection {op : Operation} {fits : Prop} [Decidable fits] {l r : Expression α}
    {e : Error} (h : objection? op fits l r = some e) :
    e.rootCause.code ≠ "INPUT_UNSUPPORTED" ∧ e.rootCause.code ≠ "INDEX_OUT_OF_BOUNDS" := by
  rcases cause_of_objection h with ⟨side, source, rfl, hsource⟩ | rfl
  · show source.rootCause.code ≠ _ ∧ source.rootCause.code ≠ _
    exact Error.code_of_isMalformed hsource
  · unfold misfit
    split
    · simp [Error.rootCause, Error.code]
    · split <;> simp [Error.rootCause, Error.code]

variable [Zero α] [One α] [Add α] [Neg α] [Mul α] [BEq α]

/-- **The operators accept exactly the operands that fit, and report the first violation.** For any
two expressions, valid or not, a sum, a difference, a comparison of any sense and a product is
refused for the first objection there is, and has a value if there is none. An objection is never
that a value has the wrong type for the result, nor that an element is missing. -/
theorem operators_decided (l r : Expression α) :
    DecidedBy (l.plus r).outcome (objection? .plus (l.dims = r.dims) l r) ∧
    DecidedBy (l.minus r).outcome (objection? .minus (l.dims = r.dims) l r) ∧
    (∀ sense : Sense, DecidedBy (l.compare r sense).outcome
      (objection? .comparison (l.dims = r.dims) l r)) ∧
    DecidedBy (l.multiply r).outcome (objection? .multiply (l.dims.cols = r.dims.rows) l r) ∧
    ∀ (op : Operation) (fits : Prop) [Decidable fits],
      (objection? op fits l r).map (·.rootCause.code) ≠ some "INPUT_UNSUPPORTED" ∧
      (objection? op fits l r).map (·.rootCause.code) ≠ some "INDEX_OUT_OF_BOUNDS" := by
  refine ⟨decidedBy_plus l r, decidedBy_minus l r, decidedBy_compare l r,
    decidedBy_multiply l r, ?_⟩
  intro op fits _
  cases h : objection? op fits l r with
  | none => exact ⟨nofun, nofun⟩
  | some e =>
    obtain ⟨hunsupported, hbounds⟩ := code_of_objection h
    exact ⟨fun hcode => hunsupported (Option.some.inj hcode),
      fun hcode => hbounds (Option.some.inj hcode)⟩

/-- A row and a column cannot be added, but the row can be multiplied by the column. -/
example :
    let row : Expression ℤ := .matrix .constant ⟨1, 2, [3, 4]⟩
    let column : Expression ℤ := .vector .constant ⟨[5, 6]⟩
    objection? .plus (row.dims = column.dims) row column =
        some (.shapeMismatch .plus ⟨1, 2⟩ ⟨2, 1⟩) ∧
      objection? .multiply (row.dims.cols = column.dims.rows) row column = none := by decide

end Expression

end DecisionAlgebra
