import DecisionAlgebra.Proofs.Derivative
import DecisionAlgebra.Proofs.ExponentSets
import DecisionAlgebra.Proofs.Substitution

/-!
# Where the variables of a result come from

A variable occurs where its exact total exponent is positive. No operation makes a total positive
that is zero in the operands, so no variable is invented; and a replaced variable is gone unless its
replacement brings it in again. A total that has wrapped around to zero counts for a replacement as
if the variable were not there, so the replaced variable may be left in a term; what is replaced is
simplified, and there such a total is dropped. For a sum the same holds the other way round where
the totals fit in a word: then no terms are added up that are not alike, and none of the variables
is lost.
-/

namespace DecisionAlgebra

variable {α : Type} {P Q : VariableId → Prop}

/-! ## Terms and scalars -/

/-- Every variable with a positive exact total is in `P`. -/
def Monomial.OccurringIn (P : VariableId → Prop) (m : Monomial α) : Prop :=
  ∀ id, 0 < m.exactMap id → P id

/-- Every variable with a total that is not zero as a word is in `P`. -/
def Monomial.CountedIn (P : VariableId → Prop) (m : Monomial α) : Prop :=
  ∀ id, m.exponentMap id ≠ 0 → P id

/-- A total that is zero is zero as a word. -/
theorem Monomial.OccurringIn.countedIn {m : Monomial α} (hm : m.OccurringIn P) : m.CountedIn P := by
  intro id hne
  refine hm id (lt_of_lt_of_le ?_ (m.toNat_exponentMap_le id))
  exact UInt32.lt_iff_toNat_lt.mp (UInt32.pos_iff_ne_zero.mpr hne)

namespace Scalar

variable [One α]

@[inherit_doc Monomial.OccurringIn]
def OccurringIn (P : VariableId → Prop) (s : Scalar α) : Prop :=
  ∀ m ∈ s.toMonomials, m.OccurringIn P

@[inherit_doc Monomial.CountedIn]
def CountedIn (P : VariableId → Prop) (s : Scalar α) : Prop :=
  ∀ m ∈ s.toMonomials, m.CountedIn P

theorem OccurringIn.countedIn {s : Scalar α} (hs : s.OccurringIn P) : s.CountedIn P :=
  fun m hm => (hs m hm).countedIn

theorem OccurringIn.congr {s t : Scalar α} (hs : s.OccurringIn P)
    (h : t.toMonomials = s.toMonomials) : t.OccurringIn P :=
  fun m hm => hs m (h ▸ hm)

theorem occurringIn_constant (c : α) : (constant c).OccurringIn P := by
  intro m hm id hpos
  rw [List.mem_singleton.mp hm] at hpos
  exact absurd hpos (lt_irrefl 0)

theorem OccurringIn.plus [Add α] {l r : Scalar α} (hl : l.OccurringIn P) (hr : r.OccurringIn P) :
    (l.plus r).OccurringIn P := by
  intro m hm
  rcases toMonomials_plus l r with h | ⟨a, b, ha, -, -, h⟩
  · rw [h] at hm
    exact (List.mem_append.mp hm).elim (hl m) (hr m)
  · rw [h] at hm
    rw [List.mem_singleton.mp hm]
    exact hl a (ha ▸ List.mem_cons_self)

/-- Where the totals fit, a sum has the totals of every term of the summands. -/
theorem exists_mem_plus [Add α] {l r : Scalar α} (hl : l.TotalsFit) (hr : r.TotalsFit)
    {m : Monomial α} (hm : m ∈ l.toMonomials ++ r.toMonomials) :
    ∃ k ∈ (l.plus r).toMonomials, k.exactMap = m.exactMap := by
  rcases toMonomials_plus l r with h | ⟨a, b, ha, hb, hexp, h⟩
  · exact ⟨m, h ▸ hm, rfl⟩
  · -- two terms that count as alike are alike
    have hafit : a.TotalsFit := hl a (ha ▸ List.mem_cons_self)
    have hbfit : b.TotalsFit := hr b (hb ▸ List.mem_cons_self)
    have halike : a.exactMap = b.exactMap := (hafit.exactMap_eq_iff hbfit).mpr hexp
    rw [h]
    refine ⟨_, List.mem_cons_self, ?_⟩
    rw [ha, hb] at hm
    rcases List.mem_append.mp hm with hma | hmb
    · rw [List.mem_singleton.mp hma, Monomial.exactMap_withCoefficient]
    · rw [List.mem_singleton.mp hmb, Monomial.exactMap_withCoefficient, halike]

theorem countedIn_sum [Zero α] [Add α] {ts : List (Scalar α)} (hts : ∀ t ∈ ts, t.CountedIn P) :
    (sum ts).CountedIn P := by
  intro m hm
  cases ts with
  | nil => exact (occurringIn_constant 0 m hm).countedIn
  | cons t ts =>
    obtain ⟨u, hu, k, hk, c, rfl⟩ := mem_toMonomials_sum (List.cons_ne_nil t ts) hm
    exact hts u hu k hk

theorem OccurringIn.times [Mul α] {l r s : Scalar α} (hlo : l.OccurringIn P)
    (hro : r.OccurringIn P) (hl : l.FactorsIn Q) (hr : r.FactorsIn Q) (h : l.times r = some s) :
    s.OccurringIn P := by
  obtain ⟨t, ht, -, hprod⟩ := exists_times hl hr
  obtain rfl : t = s := Option.some.inj (ht.symm.trans h)
  intro m hm id hpos
  obtain ⟨lr, hlr, hm⟩ := exists_of_mem_forall₂ hprod hm
  obtain ⟨hml, hmr⟩ := List.mem_product.mp hlr
  -- a positive sum has a positive summand
  have hsum := hpos.trans_le (hm.exactMap_le id)
  rw [Finsupp.add_apply, Nat.add_pos_iff_pos_or_pos] at hsum
  exact hsum.elim (hlo _ hml id) (hro _ hmr id)

theorem OccurringIn.negated [Neg α] [Mul α] {s t : Scalar α} (hso : s.OccurringIn P)
    (hs : s.FactorsIn Q) (h : s.negated = some t) : t.OccurringIn P :=
  hso.times (occurringIn_constant (-1)) hs (factorsIn_constant (-1)) h

theorem OccurringIn.timesPower [Mul α] {base : Scalar α} (hbo : base.OccurringIn P)
    (hbase : base.FactorsIn Q) (n : Nat) :
    ∀ {result s : Scalar α}, result.OccurringIn P → result.FactorsIn Q →
      base.timesPower n result = some s → s.OccurringIn P := by
  induction n with
  | zero =>
    intro result s hro _ h
    cases h
    exact hro
  | succ n ih =>
    intro result s hro hresult h
    obtain ⟨next, hnext, hin, -⟩ := exists_times hresult hbase
    rw [Scalar.timesPower, hnext] at h
    exact ih (hro.times hbo hresult hbase hnext) hin h

theorem OccurringIn.power [Mul α] {base s : Scalar α} (hbo : base.OccurringIn P)
    (hbase : base.FactorsIn Q) {n : Nat} (h : base.power n = some s) : s.OccurringIn P :=
  hbo.timesPower hbase n (occurringIn_constant 1) (factorsIn_constant 1) h

/-- What is simplified writes no variable but those that count. -/
theorem CountedIn.simplified [Zero α] [Add α] [BEq α] {s : Scalar α} (hs : s.CountedIn P) :
    s.simplified.OccurringIn P := by
  intro k hk id hpos
  have hfit : k.TotalsFit := s.totalsFit_simplified k hk
  have hne : k.exponentMap id ≠ 0 := by
    intro hzero
    rw [hfit.exactMap_eq, hzero] at hpos
    exact lt_irrefl 0 hpos
  rcases s.exponents_simplified_subset (mem_termExponents.mpr ⟨k, hk, rfl⟩) with hzero | hmem
  · rw [hzero] at hne
    exact absurd rfl hne
  · obtain ⟨m, hm, hexp⟩ := mem_termExponents.mp hmem
    exact hs m hm id (hexp ▸ hne)

theorem OccurringIn.derivative [Zero α] [NatCast α] [Mul α] {s : Scalar α}
    (hs : s.OccurringIn P) (v : Variable α) : (s.derivative v).OccurringIn P := by
  intro k hk id hpos
  rcases mem_toMonomials_derivative hk with ⟨c, rfl⟩ | ⟨m, hm, hderived⟩
  · exact absurd hpos (lt_irrefl 0)
  · exact hs m hm id (hpos.trans_le (Monomial.exactMap_derivative?_le hderived id))

end Scalar

/-! ## Replacements -/

section Substitution

variable [One α] [Mul α] {v : Variable α} {r t : Scalar α}

/-- Replacing a variable in a term brings in the variables of the replacement and leaves the others,
as far as they count. -/
theorem Monomial.OccurringIn.substitute {m : Monomial α}
    (hmo : m.OccurringIn fun id => id ≠ v.id → P id) (hro : r.OccurringIn P) (hm : m.FactorsIn Q)
    (hr : r.FactorsIn Q) (h : m.substitute v r = some t) : t.CountedIn P := by
  rw [Monomial.substitute] at h
  by_cases hcontains : m.contains v = true
  · have hwithout : (Scalar.monomial (m.without v)).FactorsIn Q :=
      .singleton (hm.mono fun _ => .inr).without
    have hrest : (Scalar.monomial (m.without v)).OccurringIn P := by
      intro k hk id hpos
      rw [List.mem_singleton.mp hk, exactMap_without] at hpos
      by_cases hid : id = v.id
      · rw [hid, Finsupp.erase_same] at hpos
        exact absurd hpos (lt_irrefl 0)
      · rw [Finsupp.erase_ne hid] at hpos
        exact hmo id hpos hid
    obtain ⟨power, hpower, hpowerIn⟩ := Scalar.exists_power hr (m.exponentOf v).toNat
    rw [if_pos hcontains, hpower] at h
    exact (hrest.times (hro.power hr hpower) hwithout hpowerIn h).countedIn
  · rw [if_neg hcontains] at h
    cases h
    intro k hk id hne
    rw [List.mem_singleton.mp hk] at hne
    -- the total of the replaced variable is zero as a word
    have hid : id ≠ v.id := fun hid => hcontains (contains_iff.mpr (hid ▸ hne))
    exact hmo.countedIn id hne hid

theorem Scalar.OccurringIn.substitute [Zero α] [Add α] [BEq α] {s : Scalar α}
    (hso : s.OccurringIn fun id => id ≠ v.id → P id) (hro : r.OccurringIn P) (hs : s.FactorsIn Q)
    (hr : r.FactorsIn Q) (h : s.substitute v r = some t) : t.OccurringIn P := by
  cases s with
  | constant c =>
    cases h
    exact occurringIn_constant c
  | «variable» w =>
    rw [Scalar.substitute] at h
    cases h
    split
    next => exact hro
    next hw =>
      intro m hm id hpos
      refine hso m hm id hpos fun hid => hw ?_
      rw [List.mem_singleton.mp hm, Monomial.exactMap_term] at hpos
      have hwid : id = w.id := by
        by_contra hne
        rw [Finsupp.single_eq_of_ne hne] at hpos
        exact lt_irrefl 0 hpos
      exact Variable.beq_iff.mpr (hwid.symm.trans hid)
  | monomial m =>
    obtain ⟨u, hu, rfl⟩ := Option.map_eq_some_iff.mp h
    have hm := hs.each m List.mem_cons_self
    exact ((hso m List.mem_cons_self).substitute hro hm hr hu).simplified
  | polynomial p =>
    obtain ⟨ts, hts, ht⟩ := Option.bind_eq_some_iff.mp h
    cases ht
    have hsum : (sum ts).CountedIn P := by
      refine countedIn_sum fun u hu => ?_
      obtain ⟨m, hm, hu⟩ := exists_of_mem_forall₂ (mapM_eq_some.mp hts) hu
      exact (hso m hm).substitute hro (hs.each m hm) hr hu
    exact CountedIn.simplified (s := .polynomial (sum ts).toPolynomial) hsum

end Substitution

/-! ## Expressions -/

namespace Expression

/-- The identifiers of the occurring variables. -/
def occurringIds (e : Expression α) : Set VariableId := {id | id ∈ e.occurring.map (·.id)}

variable [One α]

@[inherit_doc Monomial.OccurringIn]
def OccurringIn (P : VariableId → Prop) (e : Expression α) : Prop :=
  ∀ s ∈ e.elements, s.OccurringIn P

theorem mem_occurringIds {e : Expression α} {id : VariableId} :
    id ∈ e.occurringIds ↔ ∃ s ∈ e.elements, ∃ m ∈ s.toMonomials, 0 < m.exactMap id :=
  mem_ids_occurring.trans (exists_congr fun _ => and_congr_right' Scalar.mem_ids_occurring)

theorem occurringIn_iff {e : Expression α} : e.OccurringIn P ↔ ∀ id ∈ e.occurringIds, P id := by
  simp only [mem_occurringIds]
  constructor
  · intro h id hid
    obtain ⟨s, hs, m, hm, hpos⟩ := hid
    exact h s hs m hm id hpos
  · intro h s hs m hm id hpos
    exact h id ⟨s, hs, m, hm, hpos⟩

/-- Lifting into one kind brings in no variable. -/
theorem OccurringIn.of_isTyped {g : Grid α} {e : Expression α} (h : g.IsTyped e)
    (hg : ∀ s ∈ g.elements, s.OccurringIn P) : e.OccurringIn P := by
  intro t ht
  rw [h.elements_eq] at ht
  obtain ⟨s, hs, rfl⟩ := List.mem_map.mp ht
  exact (hg s hs).congr (Scalar.toMonomials_promote ..)

theorem OccurringIn.of_combines {f : Scalar α → Scalar α → Option (Scalar α)} {l r : Grid α}
    {e : Expression α} (h : Grid.Combines f l r e)
    (hf : ∀ a ∈ l.elements, ∀ b ∈ r.elements, ∀ s, f a b = some s → s.OccurringIn P) :
    e.OccurringIn P := by
  intro t ht
  obtain ⟨a, ha, b, hb, s, hs, hterms⟩ := h.exists_of_mem ht
  exact (hf a ha b hb s hs).congr hterms

section Operands

variable {l r e : Expression α} (hlo : l.OccurringIn P) (hro : r.OccurringIn P)
include hlo hro

theorem OccurringIn.plus [Add α] (h : (l.plus r).outcome = .ok e) : e.OccurringIn P := by
  obtain ⟨hl, hr⟩ := factorsIn_of_checkOperands h
  refine .of_combines (combines_of_plus hl hr h).1 fun a ha b hb s hs => ?_
  cases hs
  exact (hlo a ha).plus (hro b hb)

theorem OccurringIn.minus [Add α] [Neg α] [Mul α] (h : (l.minus r).outcome = .ok e) :
    e.OccurringIn P := by
  obtain ⟨hl, hr⟩ := factorsIn_of_checkOperands h
  refine .of_combines (combines_of_minus hl hr h).1 fun a ha b hb s hs => ?_
  obtain ⟨c, hc, hs⟩ := Option.bind_eq_some_iff.mp hs
  cases hs
  exact (hlo a ha).plus ((hro b hb).negated (hr.each b hb) hc)

variable [Zero α] [Add α] [Mul α] [BEq α]

/-- An entry of a matrix product has variables of a row and a column. -/
theorem OccurringIn.productAt? (hl : l.FactorsIn Q) (hr : r.FactorsIn Q) {inner cols i j : Nat}
    {s : Scalar α}
    (h : Expression.productAt? l.elements.toArray r.elements.toArray inner cols i j = some s) :
    s.OccurringIn P := by
  obtain ⟨ts, hts, rfl⟩ := productAt?_eq_some.mp h
  refine (Scalar.countedIn_sum fun t ht => ?_).simplified
  obtain ⟨k, -, a, b, ha, hb, ht⟩ := exists_of_mem_forall₂ hts ht
  have ha := List.mem_of_getElem? (List.getElem?_toArray ▸ ha)
  have hb := List.mem_of_getElem? (List.getElem?_toArray ▸ hb)
  exact ((hlo a ha).times (hro b hb) (hl.each a ha) (hr.each b hb) ht).countedIn

theorem OccurringIn.multiply (h : (l.multiply r).outcome = .ok e) : e.OccurringIn P := by
  obtain ⟨hl, hr⟩ := factorsIn_of_checkOperands h
  rw [Expression.multiply, Traced.outcome_bind, unit_bind_eq_ok] at h
  obtain ⟨-, h⟩ := h
  split at h
  next =>
    refine .of_combines ((ensures_combine_times hl hr).value e h).1 fun a ha b hb s hs => ?_
    exact (hlo a ha).times (hro b hb) (hl.each a ha) (hr.each b hb) hs
  next =>
    rw [matrixProduct] at h
    split at h
    next =>
      rw [Traced.outcome_quiet, bind_eq_ok] at h
      obtain ⟨es, hes, he⟩ := h
      rw [Attempt.read_eq_ok] at hes
      rw [Attempt.checked_eq_ok] at he
      have hfits := fits_productForm (s := ⟨l.dims.rows, r.dims.cols⟩)
        (entries_of_productElements? hes).1
      refine .of_isTyped (Grid.isTyped_of_toExpression hfits he) fun s hs => ?_
      obtain ⟨i, j, hs⟩ := exists_of_mem_productElements? hes hs
      exact hlo.productAt? hro hl hr hs
    next => exact absurd h Attempt.refuse_ne_ok

end Operands

section Operand

variable {d e : Expression α}

theorem OccurringIn.transpose (hd : d.OccurringIn P) (h : d.transpose.outcome = .ok e) :
    e.OccurringIn P := by
  obtain ⟨hcheck, ht⟩ := transpose_eq_ok.mp h
  have hlen := (check_eq_ok.mp hcheck).length_eq
  exact fun s hs => hd s ((mem_elements_of_transposed hlen ht).mp hs)

theorem OccurringIn.simplify [Zero α] [Add α] [BEq α] (hd : d.OccurringIn P)
    (h : d.simplify.outcome = .ok e) : e.OccurringIn P := by
  obtain ⟨-, rfl⟩ := simplify_eq_ok.mp h
  intro t ht
  rw [elements_simplified] at ht
  obtain ⟨s, hs, rfl⟩ := List.mem_map.mp ht
  exact (hd s hs).countedIn.simplified

theorem OccurringIn.derivativeBy [Zero α] [NatCast α] [Mul α] {v : Variable α}
    (hd : d.OccurringIn P) (h : (d.derivativeBy v).outcome = .ok e) : e.OccurringIn P := by
  obtain ⟨hcheck, -, he⟩ := derivativeBy_eq_ok.mp h
  have hfits := (Grid.fits_ofExpression (check_eq_ok.mp hcheck).length_eq).map (·.derivative v)
  refine .of_isTyped (Grid.isTyped_of_toExpression hfits he) fun t ht => ?_
  obtain ⟨s, hs, rfl⟩ := List.mem_map.mp ht
  exact (hd s hs).derivative v

/-- The replacement may bring in the variable that it replaces, the expression does not. -/
theorem OccurringIn.substitute [Zero α] [Add α] [Mul α] [BEq α] {r : Expression α} {v : Variable α}
    (hd : d.OccurringIn fun id => id ≠ v.id → P id) (hr : r.OccurringIn P)
    (h : (d.substitute v r).outcome = .ok e) : e.OccurringIn P := by
  obtain ⟨hcheck, -, hrcheck, s, g, rfl, hg, he⟩ := substitute_eq_ok.mp h
  have hin := check_eq_ok.mp hcheck
  have hfits := (Grid.fits_ofExpression hin.length_eq).mapM? hg
  refine .of_isTyped (Grid.isTyped_of_toExpression hfits he) fun u hu => ?_
  obtain ⟨-, -, hwalk⟩ := Grid.mapM?_eq_some.mp hg
  obtain ⟨a, ha, hu⟩ := exists_of_mem_forall₂ hwalk hu
  exact (hd a ha).substitute (hr s List.mem_cons_self) (hin.each a ha)
    (factorsIn_scalar.mp (check_eq_ok.mp hrcheck)) hu

theorem OccurringIn.power [Mul α] {n : Int} (hd : d.OccurringIn P)
    (h : (d.power n).outcome = .ok e) : e.OccurringIn P := by
  obtain ⟨hcheck, s, k, t, rfl, -, ht, rfl⟩ := power_eq_ok.mp h
  have hs := factorsIn_scalar.mp (check_eq_ok.mp hcheck)
  intro u hu
  rw [List.mem_singleton.mp hu]
  exact (hd s List.mem_cons_self).power hs ht

end Operand

/-- Where the totals fit, a sum loses none of the variables. -/
theorem subset_occurringIds_plus [Add α] {l r e : Expression α} (hlt : l.TotalsFit)
    (hrt : r.TotalsFit) (h : (l.plus r).outcome = .ok e) :
    l.occurringIds ∪ r.occurringIds ⊆ e.occurringIds := by
  obtain ⟨hl, hr⟩ := factorsIn_of_checkOperands h
  obtain ⟨hcombines, hin⟩ := combines_of_plus hl hr h
  have hlfits := Grid.fits_ofExpression hl.length_eq
  have hrfits := Grid.fits_ofExpression hr.length_eq
  -- a term of an element is found in the sum of the elements that meet
  have hterm : ∀ a ∈ l.elements, ∀ b ∈ r.elements, ∀ t ∈ e.elements,
      t.toMonomials = (a.plus b).toMonomials → ∀ m ∈ a.toMonomials ++ b.toMonomials, ∀ id,
        0 < m.exactMap id → id ∈ e.occurringIds := by
    intro a ha b hb t ht hterms m hm id hpos
    obtain ⟨k, hk, hexact⟩ := Scalar.exists_mem_plus (hlt a ha) (hrt b hb) hm
    exact mem_occurringIds.mpr ⟨t, ht, k, hterms ▸ hk, hexact ▸ hpos⟩
  intro id hid
  rcases hid with hid | hid
  · obtain ⟨a, ha, m, hm, hpos⟩ := mem_occurringIds.mp hid
    obtain ⟨b, hb, s, hs, t, ht, hterms⟩ :=
      hcombines.exists_of_left hlfits hrfits (size_pos hin) ha
    cases hs
    exact hterm a ha b hb t ht hterms m (List.mem_append_left _ hm) id hpos
  · obtain ⟨b, hb, m, hm, hpos⟩ := mem_occurringIds.mp hid
    obtain ⟨a, ha, s, hs, t, ht, hterms⟩ :=
      hcombines.exists_of_right hlfits hrfits (size_pos hin) hb
    cases hs
    exact hterm a ha b hb t ht hterms m (List.mem_append_right _ hm) id hpos

theorem occurringIds_transpose {e t : Expression α} (h : e.transpose.outcome = .ok t) :
    t.occurringIds = e.occurringIds := by
  obtain ⟨he, ht⟩ := transpose_eq_ok.mp h
  have hlen := (check_eq_ok.mp he).length_eq
  ext id
  simp only [mem_occurringIds]
  exact exists_congr fun s => and_congr_left' (mem_elements_of_transposed hlen ht)

/-- What occurs is written. -/
theorem FactorsIn.occurringIn {e : Expression α} (he : e.FactorsIn P) : e.OccurringIn P := by
  intro s hs m hm id hpos
  obtain ⟨f, hf, rfl, -⟩ := exists_mem_of_exactSum_pos hpos
  exact ((he.each s hs).each m hm).of_mem hf

end Expression

/-! ## Calls -/

namespace Call

/-- The variables that the value of a call may have: those of the operands, without the one that is
replaced, and none where everything is evaluated. -/
def sources : Call α → Set VariableId
  | plus l r => l.occurringIds ∪ r.occurringIds
  | minus l r => l.occurringIds ∪ r.occurringIds
  | multiply l r => l.occurringIds ∪ r.occurringIds
  | transpose e => e.occurringIds
  | simplify e => e.occurringIds
  | derivativeBy e _ => e.occurringIds
  | substitute e v replacement => replacement.occurringIds ∪ e.occurringIds \ {v.id}
  | power e _ => e.occurringIds
  | evaluate _ _ => ∅

variable [Zero α] [One α] [NatCast α] [Add α] [Neg α] [Mul α] [BEq α]

/-- **No operation invents a variable.** -/
theorem occurringIds_subset (c : Call α) {e : Expression α} (h : c.outcome = .ok e) :
    e.occurringIds ⊆ c.sources := by
  -- an operand occurs in whatever has its variables
  have hoperand : ∀ {d : Expression α} {S : Set VariableId}, d.occurringIds ⊆ S →
      d.OccurringIn (· ∈ S) := fun hsub => Expression.occurringIn_iff.mpr hsub
  refine Expression.occurringIn_iff.mp ?_
  cases c with
  | plus l r =>
    exact (hoperand Set.subset_union_left).plus (hoperand Set.subset_union_right) h
  | minus l r =>
    exact (hoperand Set.subset_union_left).minus (hoperand Set.subset_union_right) h
  | multiply l r =>
    exact (hoperand Set.subset_union_left).multiply (hoperand Set.subset_union_right) h
  | transpose d => exact (hoperand (d := d) subset_rfl).transpose h
  | simplify d => exact (hoperand (d := d) subset_rfl).simplify h
  | derivativeBy d v => exact (hoperand (d := d) subset_rfl).derivativeBy h
  | substitute d v r =>
    have hothers : d.OccurringIn fun id => id ≠ v.id → id ∈ sources (.substitute d v r) :=
      Expression.occurringIn_iff.mpr fun id hid hne => .inr ⟨hid, hne⟩
    exact hothers.substitute (hoperand Set.subset_union_left) h
  | power d n => exact (hoperand (d := d) subset_rfl).power h
  | evaluate d p =>
    have hvalue := Attempt.checked_eq_ok.mp h
    have hd := Expression.check_eq_ok.mp (unit_bind_eq_ok.mp hvalue).1
    exact (hd.of_evaluate hvalue).2.occurringIn

end Call

end DecisionAlgebra
