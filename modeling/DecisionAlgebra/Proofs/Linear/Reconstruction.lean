import DecisionAlgebra.Proofs.Assigned
import DecisionAlgebra.Proofs.Families
import DecisionAlgebra.Proofs.InBounds
import DecisionAlgebra.Proofs.Refusals

/-!
# Linear coefficients make up the expression

The coefficients of a linear expression are read off its terms as they are stored: like terms are
not combined first, a variable may stand beside zero powers of others, and constants are left out.
Here is said when there are coefficients and for which cause there are none, and that nothing is
lost: at every point the value of an element is the inner product of its row with the values of the
ordering, plus its constant term. The two halves meet in the terms of degree one, which are those
that the walk over the terms adds to the row and those for which it needs a place in the ordering.
-/

namespace DecisionAlgebra

open MvPolynomial (eval)
open Attempt (DecidedBy)

variable {α : Type} {P : VariableId → Prop}

/-! ## Which rows there are -/

/-- The objection of an ordering to a monomial: that it does not list its variable. -/
def Monomial.unlisted? (ordering : List (Variable α)) (m : Monomial α) : Option Error :=
  match m.linearVariable with
  | some v => if Lists ordering v.id then none else some (.notInOrdering v.id)
  | none => none

namespace Monomial

/-- The ordering lists the variable of the monomial, if it is of degree one. -/
def ListedIn (m : Monomial α) (ordering : List (Variable α)) : Prop :=
  ∀ id, m.exactMap = Finsupp.single id 1 → Lists ordering id

theorem unlisted?_eq_none {ordering : List (Variable α)} {m : Monomial α} (hfit : m.DegreeFits)
    (hm : m.exponents.length = m.vars.length) :
    m.unlisted? ordering = none ↔ m.ListedIn ordering := by
  simp only [ListedIn, ← exists_linearVariable_iff hfit hm, forall_exists_index, and_imp]
  unfold unlisted?
  cases m.linearVariable with
  | none => simp
  | some v => simp [eq_comm]

theorem unlisted?_eq_some {ordering : List (Variable α)} {m : Monomial α} {err : Error}
    (hfit : m.DegreeFits) (hm : m.exponents.length = m.vars.length) :
    m.unlisted? ordering = some err ↔ ∃ id, m.exactMap = Finsupp.single id 1 ∧
      ¬Lists ordering id ∧ err = .notInOrdering id := by
  simp only [← exists_linearVariable_iff hfit hm]
  unfold unlisted?
  cases m.linearVariable with
  | none => simp
  | some v => simp [eq_comm]

end Monomial

theorem findSome?_flatMap {β γ : Type} (f : β → Option γ) (g : α → List β) (xs : List α) :
    (xs.flatMap g).findSome? f = xs.findSome? fun x => (g x).findSome? f := by
  induction xs with
  | nil => rfl
  | cons x xs ih =>
    rw [List.flatMap_cons, List.findSome?_append, ih, List.findSome?_cons]
    cases (g x).findSome? f <;> rfl

section Rows

variable [CommRing α]

theorem decidedBy_addCoefficient (ordering : List (Variable α)) (row : List α) (m : Monomial α) :
    DecidedBy (Attempt.checked (addCoefficient ordering row m)) (m.unlisted? ordering) := by
  unfold addCoefficient Monomial.unlisted?
  cases m.linearVariable with
  | none => exact Attempt.decidedBy_ok row
  | some v =>
    dsimp only
    cases hv : ordering.findIdx? (· == v) with
    | some i =>
      rw [if_pos (exists_findIdx?_iff.mp ⟨i, hv⟩)]
      exact Attempt.decidedBy_ok _
    | none =>
      rw [if_neg]
      · rfl
      · intro hlists
        obtain ⟨i, hi⟩ := exists_findIdx?_iff.mpr hlists
        cases hv.symm.trans hi

/-- The rows of an expression are decided by the first term that the ordering objects to. -/
theorem decidedBy_rows (ordering : List (Variable α)) (e : Expression α) :
    DecidedBy (Attempt.checked (e.elements.mapM fun s => coefficientRow s.toMonomials ordering))
      (e.terms.findSome? (Monomial.unlisted? ordering)) := by
  rw [Expression.terms, findSome?_flatMap]
  refine Attempt.decidedBy_mapM (fun s => ?_) e.elements
  exact Attempt.decidedBy_foldlM (decidedBy_addCoefficient ordering) s.toMonomials _

/-! ## What a row says -/

/-- Terms of degree zero add nothing to a row. -/
theorem coefficientRow_filter (ms : List (Monomial α)) (ordering : List (Variable α)) :
    coefficientRow ms ordering = coefficientRow (ms.filter (0 < ·.degree)) ordering := by
  have h : ∀ row : List α, ms.foldlM (addCoefficient ordering) row =
      (ms.filter (0 < ·.degree)).foldlM (addCoefficient ordering) row := by
    induction ms with
    | nil => intro row; rfl
    | cons m ms ih =>
      intro row
      by_cases hzero : m.degree = 0
      · have hskip : addCoefficient ordering row m = .ok row := by
          rw [addCoefficient, Monomial.linearVariable, if_neg (by rw [hzero]; decide)]
        rw [List.filter_cons_of_neg (by simp [hzero]), List.foldlM_cons, hskip]
        exact ih row
      · have hpos : 0 < m.degree := UInt32.pos_iff_ne_zero.mpr hzero
        rw [List.filter_cons_of_pos (by simpa using hpos), List.foldlM_cons, List.foldlM_cons]
        exact bind_congr ih
  exact h _

/-- The constant term is the sum of the coefficients of degree zero. -/
theorem Scalar.constantTerm_eq (s : Scalar α) :
    s.constantTerm = ((s.toMonomials.filter (·.degree = 0)).map (·.coefficient)).sum := by
  cases s with
  | constant c => simp [constantTerm, toMonomials, Monomial.constant, Monomial.degree]
  | «variable» v => simp [constantTerm, toMonomials, Monomial.term, Monomial.degree]
  | monomial m =>
    rw [constantTerm, toMonomials]
    by_cases hzero : m.degree = 0 <;> simp [hzero]
  | polynomial p => exact total_eq _

/-- **A linear scalar is its row of coefficients and its constant term.** -/
theorem Scalar.eval_of_coefficientRow {s : Scalar α} {ordering : List (Variable α)} {row : List α}
    (hs : s.FactorsIn P) (hfit : s.DegreesFit) (hlinear : s.isLinear = true)
    (hrow : coefficientRow s.toMonomials ordering = .ok row) (x : VariableId → α) :
    eval x s.exactMeaning = dot row (ordering.map (x ·.id)) + s.constantTerm := by
  have hlengths : ∀ m ∈ s.toMonomials, m.exponents.length = m.vars.length :=
    fun m hm => (hs.each m hm).length_eq
  have hterms : ∀ m ∈ s.toMonomials.filter (0 < ·.degree), m.IsLinearTerm := by
    intro m hm
    obtain ⟨hmem, hpos⟩ := List.mem_filter.mp hm
    have hle := isLinear_iff.mp hlinear m hmem
    have hpos' : (0 : UInt32) < m.degree := by simpa using hpos
    rw [UInt32.lt_iff_toNat_lt, UInt32.toNat_zero] at hpos'
    refine Monomial.isLinearTerm (hfit m hmem) (hlengths m hmem) (UInt32.toNat_inj.mp ?_)
    rw [UInt32.toNat_one]
    omega
  have hconstants : Polynomial.TellsConstants s.toMonomials :=
    fun m hm => (hfit m hm).exactMap_eq_zero (hlengths m hm)
  rw [coefficientRow_filter] at hrow
  rw [exactMeaning, Polynomial.termsExact_filter_degree hconstants, map_add, MvPolynomial.eval_C,
    ← constantTerm_eq, dot_of_coefficientRow hterms hrow]

/-- The same of several scalars and their rows. -/
theorem zipWith_of_coefficientRows {ss : List (Scalar α)} {ordering : List (Variable α)}
    {rows : List (List α)}
    (hrows : List.Forall₂ (fun s row => coefficientRow s.toMonomials ordering = .ok row) ss rows)
    (hss : ∀ s ∈ ss, s.FactorsIn P ∧ s.DegreesFit ∧ s.isLinear = true) (x : VariableId → α) :
    List.zipWith (fun row k => dot row (ordering.map (x ·.id)) + k) rows
      (ss.map Scalar.constantTerm) = ss.map fun s => eval x s.exactMeaning := by
  induction hrows with
  | nil => rfl
  | cons hrow _ ih =>
    obtain ⟨⟨hs, hfit, hlinear⟩, hrest⟩ := List.forall_mem_cons.mp hss
    rw [List.map_cons, List.zipWith_cons_cons, List.map_cons, ih hrest,
      Scalar.eval_of_coefficientRow hs hfit hlinear hrow]

end Rows

/-! ## When there are coefficients -/

namespace Expression

/-- The ordering lists the variable of every term of degree one. Where none is given, the variables
of the expression are the ordering, and there must be one. -/
def Orders [One α] (e : Expression α) : Option (List (Variable α)) → Prop
  | none => e.occurring ≠ []
  | some ordering => ∀ m ∈ e.terms, m.ListedIn ordering

/-- Why there are no coefficients, in the order in which it is found out. -/
inductive NoCoefficients [One α] [Neg α] [BEq α] [Numeral α] (e : Expression α) :
    Option (List (Variable α)) → Error → Prop where
  | malformed {wrt : Option (List (Variable α))} {err : Error} (h : e.check = .error err) :
    NoCoefficients e wrt err
  | nonlinear {wrt : Option (List (Variable α))} {text : String} (hcheck : e.check = .ok ())
    (h : e.isLinear = false) (htext : e.text = some text) :
    NoCoefficients e wrt (.notLinear none text)
  | constant (hcheck : e.check = .ok ()) (hlinear : e.isLinear = true) (h : e.occurring = []) :
    NoCoefficients e none .noOrdering
  /-- The first term whose variable the ordering does not list. -/
  | unlisted {ordering : List (Variable α)} {before after : List (Monomial α)} {m : Monomial α}
    {id : VariableId} (hcheck : e.check = .ok ()) (hlinear : e.isLinear = true)
    (hterms : e.terms = before ++ m :: after)
    (hbefore : ∀ n ∈ before, n.ListedIn ordering) (hm : m.exactMap = Finsupp.single id 1)
    (h : ¬Lists ordering id) :
    NoCoefficients e (some ordering) (.notInOrdering id)

theorem length_eq_of_mem_terms [One α] {e : Expression α} (he : e.check = .ok ()) {m : Monomial α}
    (hm : m ∈ e.terms) : m.exponents.length = m.vars.length := by
  obtain ⟨s, hs, hmem⟩ := List.mem_flatMap.mp hm
  exact (((check_eq_ok.mp he).each s hs).each m hmem).length_eq

theorem degreeFits_of_mem_terms [One α] {e : Expression α} (hfit : e.DegreesFit) {m : Monomial α}
    (hm : m ∈ e.terms) : m.DegreeFits := by
  obtain ⟨s, hs, hmem⟩ := List.mem_flatMap.mp hm
  exact hfit s hs m hmem

/-- The variable of a term occurs. -/
theorem listedIn_occurring [One α] {e : Expression α} {m : Monomial α} (hm : m ∈ e.terms) :
    m.ListedIn e.occurring := by
  intro id h
  obtain ⟨s, hs, hmem⟩ := List.mem_flatMap.mp hm
  refine mem_ids_occurring.mpr ⟨s, hs, Scalar.mem_ids_occurring.mpr ⟨m, hmem, ?_⟩⟩
  rw [h, Finsupp.single_eq_same]
  exact Nat.one_pos

section Ring

variable [CommRing α] [BEq α] [Numeral α] {e : Expression α} {wrt : Option (List (Variable α))}

/-- Once the expression is valid and linear and there is an ordering, the first term that the
ordering objects to decides. -/
theorem decidedBy_linearCoefficients (he : e.check = .ok ()) (hlinear : e.isLinear = true)
    {ordering : List (Variable α)} (hordering : resolveOrdering wrt e.occurring = .ok ordering) :
    DecidedBy (e.linearCoefficients wrt) (e.terms.findSome? (Monomial.unlisted? ordering)) := by
  rw [linearCoefficients, he, if_pos hlinear, hordering]
  refine (decidedBy_rows ordering e).bind_ok fun rows hrows => ?_
  obtain ⟨d, hd, -⟩ :=
    DenseMatrix.exists_ofRowMajor? (length_of_mem_rows (Attempt.checked_eq_ok.mp hrows))
  exact ⟨d, congrArg Attempt.read hd⟩

theorem exists_of_listedIn (he : e.check = .ok ()) (hfit : e.DegreesFit)
    (hlinear : e.isLinear = true) {ordering : List (Variable α)}
    (hordering : resolveOrdering wrt e.occurring = .ok ordering)
    (h : ∀ m ∈ e.terms, m.ListedIn ordering) : ∃ d, e.linearCoefficients wrt = .ok d := by
  have hnone : e.terms.findSome? (Monomial.unlisted? ordering) = none :=
    List.findSome?_eq_none_iff.mpr fun m hm =>
      (Monomial.unlisted?_eq_none (degreeFits_of_mem_terms hfit hm)
        (length_eq_of_mem_terms he hm)).mpr (h m hm)
  have hdecided := decidedBy_linearCoefficients he hlinear hordering
  rw [hnone] at hdecided
  exact hdecided

/-- A cause for which there are no coefficients is the one for which they are refused. -/
theorem NoCoefficients.refused {err : Error} (hfit : e.DegreesFit)
    (h : e.NoCoefficients wrt err) :
    e.linearCoefficients wrt = Attempt.refuse err := by
  cases h with
  | malformed h =>
    rw [linearCoefficients, h]
    rfl
  | nonlinear hcheck h htext =>
    rw [linearCoefficients, hcheck, if_neg (by simp [h]), htext]
    rfl
  | constant hcheck hlinear h =>
    rw [linearCoefficients, hcheck, if_pos hlinear, h]
    rfl
  | @unlisted ordering before after m id hcheck hlinear hterms hbefore hm h =>
    have hmem : ∀ n ∈ before ++ m :: after, n ∈ e.terms := fun n hn => hterms ▸ hn
    have hfirst : e.terms.findSome? (Monomial.unlisted? ordering) = some (.notInOrdering id) := by
      refine List.findSome?_eq_some_iff.mpr ⟨before, m, after, hterms, ?_, fun n hn => ?_⟩
      · have hlast := hmem m (by simp)
        exact (Monomial.unlisted?_eq_some (degreeFits_of_mem_terms hfit hlast)
          (length_eq_of_mem_terms hcheck hlast)).mpr ⟨id, hm, h, rfl⟩
      · have hearlier := hmem n (List.mem_append_left _ hn)
        exact (Monomial.unlisted?_eq_none (degreeFits_of_mem_terms hfit hearlier)
          (length_eq_of_mem_terms hcheck hearlier)).mpr (hbefore n hn)
    have hordering : resolveOrdering (some ordering) e.occurring = .ok ordering := rfl
    have hdecided := decidedBy_linearCoefficients hcheck hlinear hordering
    rw [hfirst] at hdecided
    exact hdecided

theorem NoCoefficients.not_orders {err : Error} (h : e.NoCoefficients wrt err)
    (he : e.check = .ok ()) (hlinear : e.isLinear = true) : ¬e.Orders wrt := by
  cases h with
  | malformed h => cases h.symm.trans he
  | nonlinear _ h => cases h.symm.trans hlinear
  | constant _ _ h => exact fun hne => hne h
  | unlisted _ _ hterms _ hm h =>
    exact fun horders => h (horders _ (hterms ▸ List.mem_append_right _ List.mem_cons_self) _ hm)

/-- Of the terms that an ordering does not list there is a first one. -/
theorem exists_unlisted (he : e.check = .ok ()) (hfit : e.DegreesFit) (hlinear : e.isLinear = true)
    {ordering : List (Variable α)} (h : ¬∀ m ∈ e.terms, m.ListedIn ordering) :
    ∃ err, e.NoCoefficients (some ordering) err := by
  cases hfirst : e.terms.findSome? (Monomial.unlisted? ordering) with
  | none =>
    refine absurd (fun m hm => ?_) h
    exact (Monomial.unlisted?_eq_none (degreeFits_of_mem_terms hfit hm)
      (length_eq_of_mem_terms he hm)).mp (List.findSome?_eq_none_iff.mp hfirst m hm)
  | some err =>
    obtain ⟨before, m, after, hterms, hm, hbefore⟩ := List.findSome?_eq_some_iff.mp hfirst
    have hmem : ∀ n ∈ before ++ m :: after, n ∈ e.terms := fun n hn => hterms ▸ hn
    have hlast := hmem m (by simp)
    obtain ⟨id, hid, hunlisted, -⟩ := (Monomial.unlisted?_eq_some
      (degreeFits_of_mem_terms hfit hlast) (length_eq_of_mem_terms he hlast)).mp hm
    refine ⟨_, .unlisted he hlinear hterms (fun n hn => ?_) hid hunlisted⟩
    have hearlier := hmem n (List.mem_append_left _ hn)
    exact (Monomial.unlisted?_eq_none (degreeFits_of_mem_terms hfit hearlier)
      (length_eq_of_mem_terms he hearlier)).mp (hbefore n hn)

/-- There are coefficients, or a cause for which there are none. -/
theorem exists_or_noCoefficients (hfit : e.DegreesFit) (wrt : Option (List (Variable α))) :
    ((∃ d, e.linearCoefficients wrt = .ok d) ∧ e.check = .ok () ∧ e.isLinear = true ∧
      e.Orders wrt) ∨ ∃ err, e.NoCoefficients wrt err := by
  cases hcheck : e.check with
  | error err => exact .inr ⟨err, .malformed hcheck⟩
  | ok =>
    by_cases hlinear : e.isLinear = true
    case neg =>
      obtain ⟨text, htext⟩ := (check_eq_ok.mp hcheck).exists_text
      exact .inr ⟨_, .nonlinear hcheck (by simpa using hlinear) htext⟩
    cases wrt with
    | none =>
      by_cases hown : e.occurring = []
      · exact .inr ⟨_, .constant hcheck hlinear hown⟩
      · have hordering : resolveOrdering none e.occurring = .ok e.occurring := by
          rw [resolveOrdering, if_neg (by simpa using hown)]
        exact .inl ⟨exists_of_listedIn hcheck hfit hlinear hordering fun _ => listedIn_occurring,
          rfl, hlinear, hown⟩
    | some ordering =>
      by_cases hlisted : ∀ m ∈ e.terms, m.ListedIn ordering
      · exact .inl ⟨exists_of_listedIn hcheck hfit hlinear rfl hlisted, rfl, hlinear, hlisted⟩
      · exact .inr (exists_unlisted hcheck hfit hlinear hlisted)

theorem exists_linearCoefficients_iff (hfit : e.DegreesFit) :
    (∃ d, e.linearCoefficients wrt = .ok d) ↔
      e.check = .ok () ∧ e.isLinear = true ∧ e.Orders wrt := by
  constructor
  · intro h
    obtain ⟨d, hd⟩ := h
    rcases exists_or_noCoefficients hfit wrt with ⟨-, horders⟩ | ⟨err, herr⟩
    · exact horders
    · cases hd.symm.trans (herr.refused hfit)
  · intro h
    obtain ⟨he, hlinear, horders⟩ := h
    rcases exists_or_noCoefficients hfit wrt with ⟨hd, -⟩ | ⟨err, herr⟩
    · exact hd
    · exact absurd horders (herr.not_orders he hlinear)

theorem linearCoefficients_eq_error_iff (hfit : e.DegreesFit) {f : Failure Error} :
    e.linearCoefficients wrt = .error f ↔ ∃ err, f = .refused err ∧ e.NoCoefficients wrt err := by
  constructor
  · intro h
    rcases exists_or_noCoefficients hfit wrt with ⟨⟨d, hd⟩, -⟩ | ⟨err, herr⟩
    · cases h.symm.trans hd
    · exact ⟨err, Except.error.inj (h.symm.trans (herr.refused hfit)), herr⟩
  · intro h
    obtain ⟨err, rfl, herr⟩ := h
    exact herr.refused hfit

/-! ## What they say -/

omit [CommRing α] [BEq α] [Numeral α] in
theorem eq_getD_of_resolveOrdering {own ordering : List (Variable α)}
    (h : resolveOrdering wrt own = .ok ordering) : ordering = wrt.getD own := by
  unfold resolveOrdering at h
  split at h
  next => exact (Except.ok.inj h).symm
  next =>
    split at h
    next => cases h
    next => exact (Except.ok.inj h).symm

/-- One row for each element, over the resolved ordering. -/
theorem rows_of_linearCoefficients (hfit : e.DegreesFit) {d : DenseMatrix α}
    (h : e.linearCoefficients wrt = .ok d) :
    d.rows = e.elements.length ∧ d.cols = (wrt.getD e.occurring).length ∧
      List.Forall₂ (fun s row => coefficientRow s.toMonomials (wrt.getD e.occurring) = .ok row)
        e.elements d.toRows := by
  obtain ⟨he, hlinear, -⟩ := (exists_linearCoefficients_iff hfit).mp ⟨d, h⟩
  rw [linearCoefficients, he, if_pos hlinear] at h
  obtain ⟨-, h⟩ := unit_bind_eq_ok.mp h
  obtain ⟨ordering, hordering, h⟩ := bind_eq_ok.mp h
  obtain ⟨rows, hrows, hread⟩ := bind_eq_ok.mp h
  have hrows' := Attempt.checked_eq_ok.mp hrows
  obtain rfl := eq_getD_of_resolveOrdering (Attempt.checked_eq_ok.mp hordering)
  obtain ⟨d', hd', hcount, hcols, htoRows⟩ :=
    DenseMatrix.exists_ofRowMajor? (length_of_mem_rows hrows')
  obtain rfl : d' = d := Option.some.inj (hd'.symm.trans (Attempt.read_eq_ok.mp hread))
  have hwalk := mapM_eq_ok.mp hrows'
  exact ⟨hcount.trans hwalk.length_eq.symm, hcols, htoRows.symm ▸ hwalk⟩

/-- **The coefficients and the constant terms make up the values.** -/
theorem evaluate_of_linearCoefficients (hfit : e.DegreesFit) {d : DenseMatrix α}
    (h : e.linearCoefficients wrt = .ok d) {p : Point α} (hstored : p.Assigns e.stored)
    (hordering : p.Assigns (wrt.getD e.occurring)) :
    ∃ xs v, (wrt.getD e.occurring).mapM p.value = .ok xs ∧ e.evaluate p = .ok v ∧
      v.elements =
        (List.zipWith (fun row k => dot row xs + k) d.toRows e.constantTerms).map .constant := by
  obtain ⟨he, hlinear, -⟩ := (exists_linearCoefficients_iff hfit).mp ⟨d, h⟩
  obtain ⟨-, -, hrows⟩ := rows_of_linearCoefficients hfit h
  have hin := check_eq_ok.mp he
  have helements : ∀ s ∈ e.elements, s.isLinear = true := List.all_eq_true.mp hlinear
  have hpowers : e.PowersWithin := fun s hs =>
    (hfit s hs).powersWithin_of_isLinear (hin.each s hs) (helements s hs)
  obtain ⟨v, hv⟩ := (looksUp_evaluate he).exists_ok_iff.mpr hstored
  refine ⟨_, v, Point.mapM_value_eq hordering, hv, ?_⟩
  rw [elements_of_evaluate hpowers hv, constantTerms,
    zipWith_of_coefficientRows hrows fun s hs => ⟨hin.each s hs, hfit s hs, helements s hs⟩,
    List.map_map]
  rfl

end Ring

end Expression

/-! ## Scalars -/

/-- The occurring variables of a scalar are listed once each. -/
theorem Scalar.distinct_occurring (s : Scalar α) : Variable.distinct s.occurring = s.occurring := by
  refine Variable.distinct_of_nodup ?_
  cases s with
  | constant c => exact List.nodup_nil
  | «variable» v => exact List.nodup_singleton _
  | monomial m => exact Variable.nodup_ids_distinct _
  | polynomial p => exact Variable.nodup_ids_distinct _

section Ring

variable [CommRing α] [BEq α] [Numeral α]

/-- The coefficients of a scalar as an expression are its coefficients as a matrix of one row. -/
theorem Expression.linearCoefficients_scalar (s : Scalar α) (wrt : Option (List (Variable α))) :
    (scalar s).linearCoefficients wrt = (Attempt.checked (s.linearCoefficients wrt) >>= fun row =>
      Attempt.read (DenseMatrix.ofRowMajor? 1 row.length row)) := by
  have hcheck : (scalar s).check = s.check := rfl
  have hlinear : (scalar s).isLinear = s.isLinear := Bool.and_true _
  have hown : (scalar s).occurring = s.occurring := by
    rw [occurring, elements, List.flatMap_singleton, s.distinct_occurring]
  rw [linearCoefficients, Scalar.linearCoefficients, hcheck, hlinear, hown]
  cases s.check with
  | error err => rfl
  | ok =>
    by_cases h : s.isLinear = true
    case neg =>
      rw [if_neg h, if_neg h]
      rfl
    rw [if_pos h, if_pos h]
    cases resolveOrdering wrt s.occurring with
    | error err => rfl
    | ok ordering =>
      show (Attempt.checked ([s].mapM fun s => coefficientRow s.toMonomials ordering) >>= _) =
        (Attempt.checked (coefficientRow s.toMonomials ordering) >>= _)
      rw [List.mapM_cons]
      cases hrow : coefficientRow s.toMonomials ordering with
      | error err => rfl
      | ok row =>
        show Attempt.read (DenseMatrix.ofRowMajor? 1 ordering.length (row ++ [])) =
          Attempt.read (DenseMatrix.ofRowMajor? 1 row.length row)
        rw [List.append_nil, length_of_coefficientRow hrow]

/-- A scalar has the single row of the expression that it is, or the same error. -/
theorem Scalar.linearCoefficients_eq (s : Scalar α) (wrt : Option (List (Variable α))) :
    match s.linearCoefficients wrt with
    | .ok row => ∃ d, (Expression.scalar s).linearCoefficients wrt = .ok d ∧ d.toRows = [row]
    | .error err => (Expression.scalar s).linearCoefficients wrt = Attempt.refuse err := by
  rw [Expression.linearCoefficients_scalar]
  cases s.linearCoefficients wrt with
  | error err => rfl
  | ok row =>
    obtain ⟨d, hd, -, -, htoRows⟩ :=
      DenseMatrix.exists_ofRowMajor? (List.forall_mem_singleton.mpr (rfl : row.length = _))
    rw [List.flatten_singleton] at hd
    exact ⟨d, congrArg Attempt.read hd, htoRows⟩

end Ring

end DecisionAlgebra
