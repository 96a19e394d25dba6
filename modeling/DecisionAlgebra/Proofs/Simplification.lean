import DecisionAlgebra.Proofs.Families
import DecisionAlgebra.Proofs.Validity

/-!
# What simplifying makes of like terms

The terms of a polynomial fall into families, one for each exponent map. The walk of `groups` keeps
one entry for each family, so what simplifying leaves is the families in the order of their first
members, each as one term whose coefficient is the sum of theirs, without those that are equal to
zero. Those terms are in normal form with no two alike, which a second walk does not change:
simplifying twice is simplifying once.

The coefficients are added and compared with zero, and nothing is asked of either: an infinity may
cancel to something that is no number, and zero need not be equal to itself.
-/

namespace DecisionAlgebra

variable {α : Type}

/-! ## Like terms as one -/

namespace Family

/-- The coefficients of like terms, added from the left. -/
def coefficient [Add α] (c : Family (Monomial α)) : α :=
  c.others.foldl (fun k m => k + m.coefficient) c.first.coefficient

/-- The factors of like terms: each variable of the first one that has a positive total exponent,
once and at its first place. -/
def factors (c : Family (Monomial α)) : List (Variable α × UInt32) :=
  ((Variable.distinct c.first.vars).filter c.first.contains).map
    fun v => (v, c.first.exponentOf v)

/-- Like terms as one. -/
def likeTerm [Add α] (c : Family (Monomial α)) : Monomial α :=
  Monomial.ofFactors c.coefficient c.factors

variable [Add α] {c : Family (Monomial α)}

/-- One term for a family: the first member in normal form, under the sum of the coefficients. -/
theorem likeTerm_eq (hc : c.first.exponents.length = c.first.vars.length) :
    c.likeTerm = c.first.normalized.withCoefficient c.coefficient := by
  rw [likeTerm, factors, Monomial.vars_eq hc, Monomial.normalized_eq]
  rfl

theorem exactMap_likeTerm (hc : c.first.exponents.length = c.first.vars.length)
    (hfit : c.first.TotalsFit) : c.likeTerm.exactMap = c.first.exactMap := by
  rw [likeTerm_eq hc, Monomial.exactMap_withCoefficient, hfit.exactMap_normalized]

theorem normal_likeTerm (hc : c.first.exponents.length = c.first.vars.length) :
    c.likeTerm.Normal := by
  rw [likeTerm_eq hc]
  exact c.first.normal_normalized.withCoefficient _

end Family

/-- Simplifying has a value exactly where the check passes. -/
theorem Expression.simplify_eq_ok [Zero α] [Add α] [BEq α] {e s : Expression α} :
    e.simplify.outcome = .ok s ↔ e.check = .ok () ∧ e.simplified = s := by
  rw [simplify, Traced.outcome_bind, Traced.outcome_quiet, unit_bind_eq_ok,
    Attempt.checked_eq_ok, Traced.outcome_bind, Traced.outcome_forM_emit]
  exact and_congr_right' (Except.ok.injEq _ _).to_iff

namespace Polynomial

/-- Adding up a family in its group changes nothing but the coefficient. -/
theorem foldl_withCoefficient [Add α] (ms : List (Monomial α)) (m : Monomial α) :
    ms.foldl (fun b n => b.withCoefficient (b.coefficient + n.coefficient)) m =
      m.withCoefficient (ms.foldl (fun k n => k + n.coefficient) m.coefficient) := by
  induction ms generalizing m with
  | nil => rfl
  | cons n ms ih => rw [List.foldl_cons, ih, List.foldl_cons]; rfl

/-- **The groups are the families of like terms**, each under its signature. -/
theorem groups_eq_families [Add α] (ms : List (Monomial α)) :
    groups ms = (families Monomial.exponentMap ms).map fun c =>
      (c.first.signature, c.first.normalized.withCoefficient c.coefficient) := by
  have hstep : (fun gs m => addTerm m.signature m gs : Groups α → Monomial α → Groups α) =
      keep (fun m s => s = m.signature) Monomial.signature Monomial.normalized
        (fun m g => g.withCoefficient (g.coefficient + m.coefficient)) :=
    funext₂ fun gs m => addTerm_eq_upsert m.signature m gs
  have hkey : ∀ m n : Monomial α, decide (n.signature = m.signature) =
      decide (n.exponentMap = m.exponentMap) :=
    fun m n => decide_eq_decide.mpr Monomial.signature_eq_iff
  rw [groups, hstep, foldl_keep hkey]
  refine List.map_congr_left fun c _ => Prod.ext rfl ?_
  exact foldl_withCoefficient c.others c.first.normalized

/-- What is kept of well-formed terms: the families that have not cancelled, each as one term. -/
theorem kept_eq_families [Zero α] [Add α] [BEq α] {ms : List (Monomial α)}
    (hms : ∀ m ∈ ms, m.exponents.length = m.vars.length) :
    kept ms = ((families Monomial.exponentMap ms).filter fun c =>
      !(c.coefficient == 0)).map Family.likeTerm := by
  have hterms : (groups ms).map (·.2) = (families Monomial.exponentMap ms).map Family.likeTerm := by
    rw [groups_eq_families, List.map_map]
    refine List.map_congr_left fun c hc => (Family.likeTerm_eq ?_).symm
    exact hms _ ((areFamilies_families _ ms).first_mem hc)
  rw [kept, hterms, List.filter_map]
  rfl

/-- What has been kept is kept again: it is in normal form, no two terms are alike, and none is
equal to zero. -/
theorem kept_kept [Zero α] [Add α] [BEq α] (ms : List (Monomial α)) : kept (kept ms) = kept ms := by
  rw [kept_of_apart (fun m => normal_of_mem_kept)
    ((sound_groups ms).apart.sublist List.filter_sublist)]
  exact List.filter_eq_self.mpr fun m hm => (List.mem_filter.mp hm).2

/-- The single zero that stands for the empty sum is put back, whether zero is equal to itself or
not. -/
theorem simplified_zero [Zero α] [Add α] [BEq α] :
    (⟨[Monomial.constant 0]⟩ : Polynomial α).simplified = ⟨[Monomial.constant 0]⟩ := by
  by_cases hnil : kept [(Monomial.constant 0 : Monomial α)] = []
  · exact simplified_of_kept_nil hnil
  · have hsub : (kept [(Monomial.constant 0 : Monomial α)]).Sublist [Monomial.constant 0] :=
      List.filter_sublist
    have hall := (List.sublist_singleton.mp hsub).resolve_left hnil
    exact (simplified_of_kept_ne_nil hnil).trans (congrArg mk hall)

/-- **A polynomial simplified stays as it is when it is simplified again.** -/
@[simp] theorem simplified_simplified [Zero α] [Add α] [BEq α] (p : Polynomial α) :
    p.simplified.simplified = p.simplified := by
  by_cases hnil : kept p.monomials = []
  · rw [simplified_of_kept_nil hnil, simplified_zero]
  · have htwice : kept (kept p.monomials) ≠ [] := (kept_kept p.monomials).symm ▸ hnil
    rw [simplified_of_kept_ne_nil hnil,
      simplified_of_kept_ne_nil (p := ⟨kept p.monomials⟩) htwice, kept_kept]

end Polynomial

@[simp] theorem Monomial.normalized_normalized (m : Monomial α) :
    m.normalized.normalized = m.normalized := m.normal_normalized.normalized_eq

section Twice

variable [Zero α] [Add α] [BEq α]

@[simp] theorem Scalar.simplified_simplified (s : Scalar α) :
    s.simplified.simplified = s.simplified := by
  cases s with
  | constant c => rfl
  | «variable» v => rfl
  | monomial m => exact congrArg Scalar.monomial m.normalized_normalized
  | polynomial p => exact congrArg Scalar.polynomial p.simplified_simplified

@[simp] theorem Kind.simplifyEntry_simplifyEntry (k : Kind) (x : k.Entry α) :
    k.simplifyEntry (k.simplifyEntry x) = k.simplifyEntry x := by
  cases k with
  | constant => rfl
  | «variable» => rfl
  | monomial => exact Monomial.normalized_normalized x
  | polynomial => exact Polynomial.simplified_simplified x

namespace Expression

@[simp] theorem simplified_simplified (e : Expression α) :
    e.simplified.simplified = e.simplified := by
  cases e with
  | scalar s => exact congrArg scalar s.simplified_simplified
  | vector k c => simp [simplified, Column.map]
  | matrix k m => simp [simplified, Matrix.map]

theorem form_simplified (e : Expression α) : e.simplified.form = e.form := by
  cases e <;> rfl

theorem kind_simplified (e : Expression α) : e.simplified.kind = e.kind := by
  cases e with
  | scalar s => cases s <;> rfl
  | vector k c => rfl
  | matrix k m => rfl

/-- **Simplifying is idempotent.** A valid expression of any form and kind is simplified to one of
its form, kind and shape, and that is simplified to itself: the same terms with the same factors
and coefficients, in the same order. -/
theorem simplify_idempotent [One α] {e : Expression α} (he : e.check = .ok ()) :
    ∃ s, e.simplify.outcome = .ok s ∧ s.form = e.form ∧ s.kind = e.kind ∧ s.dims = e.dims ∧
      s.simplify.outcome = .ok s := by
  have hcheck : e.simplified.check = .ok () := check_eq_ok.mpr (check_eq_ok.mp he).simplified
  exact ⟨e.simplified, simplify_eq_ok.mpr ⟨he, rfl⟩, e.form_simplified, e.kind_simplified,
    e.dims_simplified, simplify_eq_ok.mpr ⟨hcheck, e.simplified_simplified⟩⟩

/-- What is no number stays in the first entry, and the zero that is put into the second one is
left there. -/
theorem simplify_idempotent_column :
    let x : Variable Float := ⟨⟨0⟩, .continuous, 0, 1⟩
    let e : Expression Float := .vector .polynomial
      ⟨[⟨[⟨1 / 0, [x], [1]⟩, ⟨-1 / 0, [x], [1]⟩]⟩, ⟨[⟨-0, [x, x], [2, 0]⟩]⟩]⟩
    let s : Expression Float := .vector .polynomial
      ⟨[⟨[⟨1 / 0 + -1 / 0, [x], [1]⟩]⟩, ⟨[.constant 0]⟩]⟩
    e.check = .ok () ∧ e.simplify.outcome = .ok s ∧ s.simplify.outcome = .ok s := by
  intro x e s
  have he : e.check = .ok () := rfl
  have hx : ((1 / 0 + -1 / 0 : Float) == 0) = false := by decide
  have hzero : ((-0 : Float) == 0) = true := by decide
  have hfirst : Polynomial.simplified ⟨[⟨1 / 0, [x], [1]⟩, ⟨-1 / 0, [x], [1]⟩]⟩ =
      ⟨[⟨1 / 0 + -1 / 0, [x], [1]⟩]⟩ := by
    rw [Polynomial.simplified, show (Polynomial.groups _).map (·.2) =
      [⟨1 / 0 + -1 / 0, [x], [1]⟩] from rfl]
    simp [hx]
  have hsecond : Polynomial.simplified ⟨[⟨-0, [x, x], [2, 0]⟩]⟩ = ⟨[.constant 0]⟩ := by
    rw [Polynomial.simplified, show (Polynomial.groups _).map (·.2) = [⟨-0, [x], [2]⟩] from rfl]
    simp [hzero]
  have hs : e.simplified = s := by
    simp [e, s, simplified, Column.map, Kind.simplifyEntry, hfirst, hsecond]
  obtain ⟨t, ht, -, -, -, htwice⟩ := simplify_idempotent he
  cases ht.symm.trans (simplify_eq_ok.mpr ⟨he, hs⟩)
  exact ⟨he, ht, htwice⟩

end Expression

end Twice

end DecisionAlgebra
