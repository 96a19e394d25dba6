import DecisionAlgebra.Algebra.Product
import DecisionAlgebra.Proofs.ExactTotals
import DecisionAlgebra.Proofs.Sequencing

/-!
# Well-formed scalars and what arithmetic makes of them

A scalar counts as its list of terms. `FactorsIn P` says that there is at least one term, that every
term has as many exponents as variables, and that `P` holds of every identifier written: with `P`
"an environment may have made it" this is what `check` finds out, with `P` "the point gives it a
value" it is what evaluation needs. Sums and products keep `FactorsIn P` for every `P`, and the
lemmas here say for each what terms the result has. No law of numbers is used.
-/

namespace DecisionAlgebra

variable {α : Type} {P Q : VariableId → Prop}

/-! ## Well-formed terms -/

/-- As many exponents as variables, and `P` holds of every identifier written. -/
structure Monomial.FactorsIn (P : VariableId → Prop) (m : Monomial α) : Prop where
  length_eq : m.exponents.length = m.vars.length
  ids : ∀ v ∈ m.vars, P v.id

/-- At least one term, and every term well-formed with identifiers in `P`. -/
structure TermsIn (P : VariableId → Prop) (ms : List (Monomial α)) : Prop where
  ne_nil : ms ≠ []
  each : ∀ m ∈ ms, m.FactorsIn P

/-- The terms of a scalar are well-formed with identifiers in `P`. -/
def Scalar.FactorsIn [One α] (P : VariableId → Prop) (s : Scalar α) : Prop :=
  TermsIn P s.toMonomials

namespace Monomial

theorem FactorsIn.mono {m : Monomial α} (hm : m.FactorsIn P) (h : ∀ id, P id → Q id) :
    m.FactorsIn Q :=
  ⟨hm.length_eq, fun v hv => h _ (hm.ids v hv)⟩

/-- The variables of a well-formed monomial are those of its factors. -/
theorem FactorsIn.of_mem {m : Monomial α} (hm : m.FactorsIn P) {f : Variable α × UInt32}
    (hf : f ∈ m.factors) : P f.1.id :=
  hm.ids f.1 (List.of_mem_zip hf).1

theorem vars_eq {m : Monomial α} (hm : m.exponents.length = m.vars.length) :
    m.vars = m.factors.map (·.1) :=
  (List.map_fst_zip hm.ge).symm

theorem factorsIn_constant (c : α) : (constant c).FactorsIn P :=
  ⟨rfl, nofun⟩

theorem factorsIn_term {v : Variable α} {c : α} (hv : P v.id) : (term v c).FactorsIn P :=
  ⟨rfl, fun w hw => by rw [List.mem_singleton.mp hw]; exact hv⟩

theorem factorsIn_ofFactors {c : α} {fs : List (Variable α × UInt32)} (h : ∀ f ∈ fs, P f.1.id) :
    (ofFactors c fs).FactorsIn P := by
  refine ⟨by simp [ofFactors], fun v hv => ?_⟩
  obtain ⟨f, hf, rfl⟩ := List.mem_map.mp hv
  exact h f hf

theorem FactorsIn.withCoefficient {m : Monomial α} (hm : m.FactorsIn P) (c : α) :
    (m.withCoefficient c).FactorsIn P := ⟨hm.length_eq, hm.ids⟩

theorem FactorsIn.scaled [Mul α] {m : Monomial α} (hm : m.FactorsIn P) (c : α) :
    (m.scaled c).FactorsIn P := hm.withCoefficient _

/-- Merging invents no variable. -/
theorem FactorsIn.normalized {m : Monomial α} (hm : m.FactorsIn P) : m.normalized.FactorsIn P := by
  refine factorsIn_ofFactors fun f hf => ?_
  have hid : f.1.id ∈ m.mergedFactors.map (·.1.id) :=
    List.mem_map_of_mem (List.mem_filter.mp hf).1
  rw [mergedFactors, mem_ids_merge] at hid
  obtain ⟨g, hg, heq⟩ := List.mem_map.mp (hid.resolve_right List.not_mem_nil)
  exact heq ▸ hm.of_mem hg

theorem checkVariable_eq_ok {v : Variable α} :
    checkVariable v = .ok () ↔ v.id.isDefined = true := by
  unfold checkVariable
  split <;> simp_all

theorem check_eq_ok {m : Monomial α} :
    m.check = .ok () ↔ m.FactorsIn (fun id => id.isDefined = true) := by
  unfold check
  split
  next h =>
    rw [forM_eq_ok]
    simp only [checkVariable_eq_ok]
    exact ⟨fun hv => ⟨h, hv⟩, fun hm => hm.ids⟩
  next h =>
    exact ⟨nofun, fun hm => absurd hm.length_eq h⟩

/-! ## Products of monomials -/

/-- What a product of monomials is, up to the writing of its factors. -/
structure IsProduct [Mul α] (a b m : Monomial α) : Prop where
  coefficient_eq : m.coefficient = a.coefficient * b.coefficient
  exponentMap_eq : m.exponentMap = a.exponentMap + b.exponentMap
  exactMap_le : m.exactMap ≤ a.exactMap + b.exactMap

/-- Raising the exponent at a place adds to the total of the variable at that place. -/
theorem exponentSum_zip_set (k : UInt32) {v : Variable α} {e : UInt32} :
    ∀ {vs : List (Variable α)} {es : List UInt32} {i : Nat}, vs[i]? = some v → es[i]? = some e →
      exponentSum Variable.id (vs.zip (es.set i (e + k))) =
        Finsupp.single v.id k + exponentSum Variable.id (vs.zip es)
  | [], _, _, hv, _ => by simp at hv
  | _ :: _, [], _, _, he => by simp at he
  | w :: vs, d :: es, 0, hv, he => by
    obtain rfl : w = v := by simpa using hv
    obtain rfl : d = e := by simpa using he
    rw [List.set_cons_zero, List.zip_cons_cons, List.zip_cons_cons, exponentSum_cons,
      exponentSum_cons, Finsupp.single_add, ← add_assoc, add_comm (Finsupp.single w.id d)]
  | w :: vs, d :: es, i + 1, hv, he => by
    have hv' : vs[i]? = some v := by simpa using hv
    have he' : es[i]? = some e := by simpa using he
    have ih := exponentSum_zip_set k hv' he'
    rw [List.set_cons_succ, List.zip_cons_cons, List.zip_cons_cons, exponentSum_cons,
      exponentSum_cons, ih, add_left_comm]

/-- Raising the exponent at a place adds at most as much to the exact totals. -/
theorem exactSum_zip_set_le (k : UInt32) {v : Variable α} {e : UInt32} :
    ∀ {vs : List (Variable α)} {es : List UInt32} {i : Nat}, vs[i]? = some v → es[i]? = some e →
      exactSum Variable.id (vs.zip (es.set i (e + k))) ≤
        Finsupp.single v.id k.toNat + exactSum Variable.id (vs.zip es)
  | [], _, _, hv, _ => by simp at hv
  | _ :: _, [], _, _, he => by simp at he
  | w :: vs, d :: es, 0, hv, he => by
    obtain rfl : w = v := by simpa using hv
    obtain rfl : d = e := by simpa using he
    rw [List.set_cons_zero, List.zip_cons_cons, List.zip_cons_cons, exactSum_cons, exactSum_cons,
      ← add_assoc, add_comm (Finsupp.single w.id k.toNat)]
    exact add_le_add_left (single_toNat_add_le w.id d k) _
  | w :: vs, d :: es, i + 1, hv, he => by
    have hv' : vs[i]? = some v := by simpa using hv
    have he' : es[i]? = some e := by simpa using he
    rw [List.set_cons_succ, List.zip_cons_cons, List.zip_cons_cons, exactSum_cons, exactSum_cons,
      add_left_comm]
    exact add_le_add_right (exactSum_zip_set_le k hv' he') _

theorem exists_timesFactor {m : Monomial α} (hm : m.FactorsIn P) {f : Variable α × UInt32}
    (hf : P f.1.id) :
    ∃ c, m.timesFactor f = some c ∧ c.FactorsIn P ∧ c.coefficient = m.coefficient ∧
      c.exponentMap = Finsupp.single f.1.id f.2 + m.exponentMap ∧
      c.exactMap ≤ Finsupp.single f.1.id f.2.toNat + m.exactMap := by
  unfold timesFactor
  split
  next i hi =>
    -- the variable is there already, and the exponent beside it grows
    obtain ⟨hlt, hid, -⟩ := List.findIdx?_eq_some_iff_getElem.mp hi
    have hlt' : i < m.exponents.length := hm.length_eq ▸ hlt
    have hv : m.vars[i]? = some m.vars[i] := List.getElem?_eq_getElem hlt
    have he : m.exponents[i]? = some m.exponents[i] := List.getElem?_eq_getElem hlt'
    refine ⟨{ m with exponents := m.exponents.set i (m.exponents[i] + f.2) }, by rw [he]; rfl,
      ⟨List.length_set.trans hm.length_eq, hm.ids⟩, rfl, ?_, ?_⟩
    · rw [← Variable.beq_iff.mp hid]
      exact exponentSum_zip_set f.2 hv he
    · rw [← Variable.beq_iff.mp hid]
      exact exactSum_zip_set_le f.2 hv he
  next hnone =>
    -- the factor is a new one and goes last
    refine ⟨_, rfl, ⟨?_, fun v hv => ?_⟩, rfl, ?_, le_of_eq ?_⟩
    · simp [hm.length_eq]
    · rcases List.mem_append.mp hv with hv' | hv'
      · exact hm.ids v hv'
      · rw [List.mem_singleton.mp hv']
        exact hf
    · show exponentSum Variable.id (List.zip (m.vars ++ [f.1]) (m.exponents ++ [f.2])) = _
      rw [List.zip_append hm.length_eq.symm, exponentSum_append, add_comm]
      simp [exponentMap, factors]
    · show exactSum Variable.id (List.zip (m.vars ++ [f.1]) (m.exponents ++ [f.2])) = _
      rw [List.zip_append hm.length_eq.symm, exactSum_append, add_comm]
      simp [exactMap, factors]

theorem exists_foldlM_timesFactor (fs : List (Variable α × UInt32)) :
    ∀ {m : Monomial α}, m.FactorsIn P → (∀ f ∈ fs, P f.1.id) →
      ∃ c, fs.foldlM timesFactor m = some c ∧ c.FactorsIn P ∧ c.coefficient = m.coefficient ∧
        c.exponentMap = exponentSum Variable.id fs + m.exponentMap ∧
        c.exactMap ≤ exactSum Variable.id fs + m.exactMap := by
  induction fs with
  | nil =>
    intro m hm _
    exact ⟨m, rfl, hm, rfl, by rw [exponentSum_nil, zero_add], by rw [exactSum_nil, zero_add]⟩
  | cons f fs ih =>
    intro m hm hfs
    obtain ⟨m', hm', hin', hcoef', hexp', hle'⟩ :=
      exists_timesFactor hm (hfs f List.mem_cons_self)
    obtain ⟨c, hc, hin, hcoef, hexp, hle⟩ := ih hin' fun g hg => hfs g (List.mem_cons_of_mem _ hg)
    refine ⟨c, ?_, hin, hcoef.trans hcoef', ?_, ?_⟩
    · rw [List.foldlM_cons, hm']
      exact hc
    · rw [hexp, hexp', exponentSum_cons, ← add_assoc, add_comm (exponentSum Variable.id fs)]
    · calc c.exactMap ≤ exactSum Variable.id fs + m'.exactMap := hle
        _ ≤ exactSum Variable.id fs + (Finsupp.single f.1.id f.2.toNat + m.exactMap) :=
          add_le_add_right hle' _
        _ = exactSum Variable.id (f :: fs) + m.exactMap := by
          rw [exactSum_cons, ← add_assoc, add_comm (exactSum Variable.id fs)]

theorem exists_times [Mul α] {a b : Monomial α} (ha : a.FactorsIn P) (hb : b.FactorsIn P) :
    ∃ c, a.times b = some c ∧ c.FactorsIn P ∧ IsProduct a b c := by
  obtain ⟨c, hc, hin, hcoef, hexp, hle⟩ := exists_foldlM_timesFactor b.factors
    (ha.withCoefficient (a.coefficient * b.coefficient)) fun f hf => hb.of_mem hf
  refine ⟨c, hc, hin, hcoef, ?_, ?_⟩
  · rw [hexp, exponentMap_withCoefficient, add_comm]
    rfl
  · rw [exactMap_withCoefficient, add_comm] at hle
    exact hle

/-- The totals of a product are at most the totals of the factors together. -/
theorem IsProduct.totalsWithin [Mul α] {a b m : Monomial α} (h : IsProduct a b m) {k n : ℕ}
    (ha : a.TotalsWithin k) (hb : b.TotalsWithin n) : m.TotalsWithin (k + n) :=
  totalsWithin_iff.mpr fun id => (h.exactMap_le id).trans
    (Nat.add_le_add (totalsWithin_iff.mp ha id) (totalsWithin_iff.mp hb id))

theorem IsProduct.totalsFit [Mul α] {a b m : Monomial α} (h : IsProduct a b m)
    (hab : a.TotalsFitWith b) : m.TotalsFit :=
  totalsWithin_iff.mpr fun id => (h.exactMap_le id).trans (totalsFitWith_iff.mp hab id)

end Monomial

/-! ## Scalars as lists of terms -/

namespace TermsIn

theorem mono {ms : List (Monomial α)} (h : TermsIn P ms) (hPQ : ∀ id, P id → Q id) :
    TermsIn Q ms :=
  ⟨h.ne_nil, fun m hm => (h.each m hm).mono hPQ⟩

theorem append {ms ns : List (Monomial α)} (hms : TermsIn P ms) (hns : TermsIn P ns) :
    TermsIn P (ms ++ ns) := by
  refine ⟨List.append_ne_nil_of_left_ne_nil hms.ne_nil ns, fun m hm => ?_⟩
  rcases List.mem_append.mp hm with h | h
  · exact hms.each m h
  · exact hns.each m h

theorem singleton {m : Monomial α} (hm : m.FactorsIn P) : TermsIn P [m] :=
  ⟨List.cons_ne_nil _ _, fun n hn => by rw [List.mem_singleton.mp hn]; exact hm⟩

end TermsIn

theorem Polynomial.check_eq_ok {p : Polynomial α} :
    p.check = .ok () ↔ TermsIn (fun id => id.isDefined = true) p.monomials := by
  unfold Polynomial.check
  split
  next h =>
    exact ⟨nofun, fun hp => absurd (List.isEmpty_iff.mp h) hp.ne_nil⟩
  next h =>
    rw [forM_eq_ok]
    simp only [Monomial.check_eq_ok]
    exact ⟨fun hp => ⟨fun hnil => h (List.isEmpty_iff.mpr hnil), hp⟩, fun hp => hp.each⟩

/-! ## Products of lists of terms -/

/-- The terms `ms` are the products of the pairs of terms, those of the right varying faster. -/
def AreProducts [Mul α] (ls rs ms : List (Monomial α)) : Prop :=
  List.Forall₂ (fun lr m => Monomial.IsProduct lr.1 lr.2 m) (ls ×ˢ rs) ms

theorem AreProducts.ne_nil [Mul α] {ls rs ms : List (Monomial α)} (h : AreProducts ls rs ms)
    (hl : ls ≠ []) (hr : rs ≠ []) : ms ≠ [] := by
  intro hnil
  have hlen := h.length_eq
  rw [List.length_product, hnil] at hlen
  rcases Nat.mul_eq_zero.mp hlen with h0 | h0
  · exact hl (List.eq_nil_of_length_eq_zero h0)
  · exact hr (List.eq_nil_of_length_eq_zero h0)

theorem exists_row_products [Mul α] {l : Monomial α} {rs : List (Monomial α)}
    (hl : l.FactorsIn P) (hrs : ∀ r ∈ rs, r.FactorsIn P) :
    ∃ ms, rs.mapM (fun r => l.times r) = some ms ∧ (∀ m ∈ ms, m.FactorsIn P) ∧
      List.Forall₂ (fun r m => Monomial.IsProduct l r m) rs ms := by
  induction rs with
  | nil => exact ⟨[], rfl, nofun, .nil⟩
  | cons r rs ih =>
    obtain ⟨m, hm, hin, hprod⟩ := Monomial.exists_times hl (hrs r List.mem_cons_self)
    obtain ⟨ms, hms, hins, hprods⟩ := ih fun s hs => hrs s (List.mem_cons_of_mem _ hs)
    refine ⟨m :: ms, ?_, List.forall_mem_cons.mpr ⟨hin, hins⟩, .cons hprod hprods⟩
    rw [mapM_eq_some] at hms ⊢
    exact .cons hm hms

theorem exists_distribute [Mul α] {ls rs : List (Monomial α)} (hls : ∀ l ∈ ls, l.FactorsIn P)
    (hrs : ∀ r ∈ rs, r.FactorsIn P) :
    ∃ p, (Polynomial.mk ls).distribute rs = some p ∧ (∀ m ∈ p.monomials, m.FactorsIn P) ∧
      AreProducts ls rs p.monomials := by
  -- one row of products for each term on the left
  suffices h : ∃ rows, ls.mapM (fun l => rs.mapM fun r => l.times r) = some rows ∧
      (∀ m ∈ rows.flatten, m.FactorsIn P) ∧ AreProducts ls rs rows.flatten by
    obtain ⟨rows, hrows, hin, hprod⟩ := h
    exact ⟨⟨rows.flatten⟩, by rw [Polynomial.distribute, hrows]; rfl, hin, hprod⟩
  induction ls with
  | nil => exact ⟨[], rfl, nofun, .nil⟩
  | cons l ls ih =>
    obtain ⟨ms, hms, hin, hprod⟩ := exists_row_products (hls l List.mem_cons_self) hrs
    obtain ⟨rows, hrows, hins, hprods⟩ := ih fun k hk => hls k (List.mem_cons_of_mem _ hk)
    refine ⟨ms :: rows, ?_, ?_, ?_⟩
    · rw [mapM_eq_some] at hrows ⊢
      exact .cons hms hrows
    · rw [List.flatten_cons]
      intro m hm
      rcases List.mem_append.mp hm with h | h
      · exact hin m h
      · exact hins m h
    · rw [AreProducts, List.product_cons, List.flatten_cons]
      refine List.rel_append ?_ hprods
      exact List.forall₂_map_left_iff.mpr hprod

namespace Scalar

variable [One α]

theorem FactorsIn.mono {s : Scalar α} (hs : s.FactorsIn P) (h : ∀ id, P id → Q id) :
    s.FactorsIn Q :=
  TermsIn.mono hs h

theorem factorsIn_constant (c : α) : (constant c).FactorsIn P :=
  .singleton (Monomial.factorsIn_constant c)

theorem factorsIn_variable {v : Variable α} : («variable» v).FactorsIn P ↔ P v.id :=
  ⟨fun h => (h.each _ List.mem_cons_self).ids v List.mem_cons_self,
    fun h => .singleton (Monomial.factorsIn_term h)⟩

/-- A check finds out whether the terms are well-formed with defined variables. -/
theorem check_eq_ok {s : Scalar α} :
    s.check = .ok () ↔ s.FactorsIn (fun id => id.isDefined = true) := by
  cases s with
  | constant c => exact ⟨fun _ => factorsIn_constant c, fun _ => rfl⟩
  | «variable» v =>
    rw [factorsIn_variable]
    exact Monomial.checkVariable_eq_ok
  | monomial m =>
    refine Monomial.check_eq_ok.trans ⟨fun h => .singleton h, ?_⟩
    intro h
    exact h.each m List.mem_cons_self
  | polynomial p => exact Polynomial.check_eq_ok

/-! ## Sums -/

theorem asSingleMonomial_eq_some {s : Scalar α} {m : Monomial α} :
    s.asSingleMonomial = some m ↔ s.toMonomials = [m] := by
  unfold asSingleMonomial
  split
  next n hn => rw [hn, Option.some.injEq, List.cons.injEq, and_iff_left rfl]
  next hne => exact ⟨nofun, fun h => absurd h (hne m)⟩

/-- The sum of two scalars has the terms of both, except that two single like terms become one. -/
theorem toMonomials_plus [Add α] (l r : Scalar α) :
    (l.plus r).toMonomials = l.toMonomials ++ r.toMonomials ∨
    ∃ a b, l.toMonomials = [a] ∧ r.toMonomials = [b] ∧ a.exponentMap = b.exponentMap ∧
      (l.plus r).toMonomials = [a.withCoefficient (a.coefficient + b.coefficient)] := by
  unfold plus
  split
  next a b => exact .inr ⟨_, _, rfl, rfl, rfl, rfl⟩
  next =>
    split
    next a b ha hb =>
      split
      next hsame =>
        exact .inr ⟨a, b, asSingleMonomial_eq_some.mp ha, asSingleMonomial_eq_some.mp hb,
          Monomial.sameSignature_iff.mp hsame, rfl⟩
      next => exact .inl rfl
    next => exact .inl rfl

theorem FactorsIn.plus [Add α] {l r : Scalar α} (hl : l.FactorsIn P) (hr : r.FactorsIn P) :
    (l.plus r).FactorsIn P := by
  rcases toMonomials_plus l r with h | ⟨a, b, ha, -, -, h⟩
  · rw [FactorsIn, h]
    exact TermsIn.append hl hr
  · rw [FactorsIn, h]
    refine .singleton (Monomial.FactorsIn.withCoefficient ?_ _)
    exact hl.each a (ha ▸ List.mem_cons_self)

theorem factorsIn_foldl_plus [Add α] {ts : List (Scalar α)} (hts : ∀ t ∈ ts, t.FactorsIn P) :
    ∀ {s : Scalar α}, s.FactorsIn P → (ts.foldl Scalar.plus s).FactorsIn P := by
  induction ts with
  | nil => intro s hs; exact hs
  | cons t ts ih =>
    intro s hs
    exact ih (fun u hu => hts u (List.mem_cons_of_mem _ hu)) (hs.plus (hts t List.mem_cons_self))

theorem factorsIn_sum [Zero α] [Add α] {ts : List (Scalar α)} (hts : ∀ t ∈ ts, t.FactorsIn P) :
    (sum ts).FactorsIn P := by
  cases ts with
  | nil => exact .singleton (Monomial.factorsIn_constant 0)
  | cons t ts =>
    exact factorsIn_foldl_plus (fun u hu => hts u (List.mem_cons_of_mem _ hu))
      (hts t List.mem_cons_self)

/-- A term of a sum is a term of a summand, up to its coefficient. -/
theorem mem_toMonomials_foldl_plus [Add α] {m : Monomial α} (ts : List (Scalar α)) :
    ∀ {s : Scalar α}, m ∈ (ts.foldl Scalar.plus s).toMonomials →
      ∃ t ∈ s :: ts, ∃ n ∈ t.toMonomials, ∃ c, m = n.withCoefficient c := by
  induction ts with
  | nil =>
    intro s hm
    exact ⟨s, List.mem_cons_self, m, hm, m.coefficient, rfl⟩
  | cons u ts ih =>
    intro s hm
    obtain ⟨t, ht, n, hn, c, hc⟩ := ih hm
    rcases List.mem_cons.mp ht with rfl | ht'
    · -- a term of the first sum is one of `s`, one of `u`, or the one term that both have become
      rcases toMonomials_plus s u with h | ⟨a, b, ha, -, -, h⟩
      · rw [h] at hn
        rcases List.mem_append.mp hn with hn' | hn'
        · exact ⟨s, List.mem_cons_self, n, hn', c, hc⟩
        · exact ⟨u, List.mem_cons_of_mem _ List.mem_cons_self, n, hn', c, hc⟩
      · rw [h] at hn
        rw [List.mem_singleton.mp hn] at hc
        exact ⟨s, List.mem_cons_self, a, ha ▸ List.mem_cons_self, c, hc⟩
    · exact ⟨t, List.mem_cons_of_mem _ (List.mem_cons_of_mem _ ht'), n, hn, c, hc⟩

theorem mem_toMonomials_sum [Zero α] [Add α] {m : Monomial α} {ts : List (Scalar α)}
    (hts : ts ≠ []) (hm : m ∈ (sum ts).toMonomials) :
    ∃ t ∈ ts, ∃ n ∈ t.toMonomials, ∃ c, m = n.withCoefficient c := by
  cases ts with
  | nil => exact absurd rfl hts
  | cons t ts => exact mem_toMonomials_foldl_plus ts hm

/-! ## Products -/

theorem toMonomials_of_asMonomial {s : Scalar α} {m : Monomial α} (h : s.asMonomial = some m) :
    s.toMonomials = [m] := by
  cases s with
  | constant c => rw [toMonomials, Option.some.inj h]
  | «variable» v => rw [toMonomials, Option.some.inj h]
  | monomial n => rw [toMonomials, Option.some.inj h]
  | polynomial p => cases h

/-- **The product of well-formed scalars exists**, and its terms are the products of their terms. -/
theorem exists_times [Mul α] {l r : Scalar α} (hl : l.FactorsIn P) (hr : r.FactorsIn P) :
    ∃ s, l.times r = some s ∧ s.FactorsIn P ∧
      AreProducts l.toMonomials r.toMonomials s.toMonomials := by
  unfold times
  -- two constants, two single monomials, or everything multiplied out
  split
  next a b =>
    refine ⟨_, rfl, factorsIn_constant _, .cons ⟨rfl, ?_, ?_⟩ .nil⟩
    · exact (add_zero 0).symm
    · exact le_of_eq (add_zero 0).symm
  next =>
    split
    next a b ha hb =>
      have hla := toMonomials_of_asMonomial ha
      have hrb := toMonomials_of_asMonomial hb
      obtain ⟨m, hm, hin, hprod⟩ := Monomial.exists_times
        (hl.each a (hla ▸ List.mem_cons_self)) (hr.each b (hrb ▸ List.mem_cons_self))
      refine ⟨.monomial m, by rw [hm]; rfl, .singleton hin, ?_⟩
      rw [hla, hrb]
      exact .cons hprod .nil
    next =>
      obtain ⟨p, hp, hin, hprod⟩ := exists_distribute hl.each hr.each
      refine ⟨.polynomial p, ?_, ⟨?_, hin⟩, hprod⟩
      · rw [toPolynomial, hp]
        rfl
      · exact hprod.ne_nil hl.ne_nil hr.ne_nil

theorem exists_negated [Neg α] [Mul α] {s : Scalar α} (hs : s.FactorsIn P) :
    ∃ t, s.negated = some t ∧ t.FactorsIn P ∧
      AreProducts s.toMonomials [Monomial.constant (-1)] t.toMonomials :=
  exists_times hs (factorsIn_constant (-1))

theorem exists_timesPower [Mul α] {base : Scalar α} (hbase : base.FactorsIn P) (n : Nat) :
    ∀ {result : Scalar α}, result.FactorsIn P →
      ∃ s, base.timesPower n result = some s ∧ s.FactorsIn P := by
  induction n with
  | zero => intro result hresult; exact ⟨result, rfl, hresult⟩
  | succ n ih =>
    intro result hresult
    obtain ⟨next, hnext, hin, -⟩ := exists_times hresult hbase
    obtain ⟨s, hs, hins⟩ := ih hin
    exact ⟨s, by rw [timesPower, hnext]; exact hs, hins⟩

theorem exists_power [Mul α] {base : Scalar α} (hbase : base.FactorsIn P) (n : Nat) :
    ∃ s, base.power n = some s ∧ s.FactorsIn P :=
  exists_timesPower hbase n (factorsIn_constant 1)

end Scalar

end DecisionAlgebra
