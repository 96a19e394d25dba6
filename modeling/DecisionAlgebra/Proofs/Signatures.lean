import DecisionAlgebra.Proofs.Listing
import DecisionAlgebra.Proofs.WellFormed

/-!
# Monomials up to the writing of their factors

Three walks gather the exponents of a monomial: the signature sorts them by identifier, the normal
form puts them at the first places of their variables, and a product adds those of its second factor
to the first places in the first one or behind them. On lists in which variables are repeated, on
both sides and with exponent zero, they gather the same totals. So signatures tell monomials apart
exactly as far as the exponents of their variables do, and of products they forget the order and the
grouping.

The normal form is ordered by all factors that are written, also by those with exponent zero. The
normal form of `x^0 y x` is `x y`, although `y` is the first of its occurring variables.
-/

namespace DecisionAlgebra

variable {α : Type}

namespace Monomial

/-- Monomials have one exponent map if every variable has one exponent in them. -/
theorem exponentMap_eq_iff {a b : Monomial α} :
    a.exponentMap = b.exponentMap ↔ ∀ v : Variable α, a.exponentOf v = b.exponentOf v := by
  simp only [exponentOf_eq]
  constructor
  · intro h v
    rw [h]
  · intro h
    -- there is a variable with every identifier, whatever its bounds
    exact Finsupp.ext fun id => h ⟨id, .continuous, a.coefficient, a.coefficient⟩

/-- Where nothing is asked of the identifiers, well-formed are parallel lists. -/
theorem factorsIn_of_length {m : Monomial α} (hm : m.exponents.length = m.vars.length) :
    m.FactorsIn fun _ => True :=
  ⟨hm, fun _ _ => trivial⟩

/-- The variables of a normal form: the written ones that have a positive total exponent, each
once. -/
theorem vars_normalized {m : Monomial α} (hm : m.exponents.length = m.vars.length) :
    m.normalized.vars = (Variable.distinct m.vars).filter m.contains := by
  rw [normalized_eq, ← vars_eq hm, ofFactors, List.map_map]
  exact List.map_id _

theorem inFirstPlaces_vars_normalized {m : Monomial α}
    (hm : m.exponents.length = m.vars.length) :
    Variable.InFirstPlaces m.vars m.normalized.vars := by
  rw [vars_normalized hm]
  exact (Variable.inFirstPlaces_distinct m.vars).sublist List.filter_sublist

variable [Mul α]

/-- Parallel lists have a product, and it is one of parallel lists. -/
theorem exists_times_of_length {a b : Monomial α} (ha : a.exponents.length = a.vars.length)
    (hb : b.exponents.length = b.vars.length) :
    ∃ m, a.times b = some m ∧ m.exponents.length = m.vars.length ∧ IsProduct a b m := by
  obtain ⟨m, hm, hin, hproduct⟩ := exists_times (factorsIn_of_length ha) (factorsIn_of_length hb)
  exact ⟨m, hm, hin.length_eq, hproduct⟩

/-- Products of the same exponents, in whichever order and grouping, have one signature. -/
theorem IsProduct.signature_eq {a b c d m n : Monomial α} (hm : IsProduct a b m)
    (hn : IsProduct c d n) (h : a.exponentMap + b.exponentMap = c.exponentMap + d.exponentMap) :
    m.signature = n.signature := by
  rw [signature_eq_iff, hm.exponentMap_eq, hn.exponentMap_eq, h]

/-- Where the totals together fit in a word, the total of a product is the sum as a number. -/
theorem IsProduct.toNat_exponentOf {a b m : Monomial α} (hm : IsProduct a b m)
    (hfit : a.TotalsFitWith b) (v : Variable α) :
    (m.exponentOf v).toNat = (a.exponentOf v).toNat + (b.exponentOf v).toNat := by
  have hsum : (a.exponentMap v.id).toNat + (b.exponentMap v.id).toNat < UInt32.size :=
    Nat.lt_succ_of_le <| (Nat.add_le_add (a.toNat_exponentMap_le v.id)
      (b.toNat_exponentMap_le v.id)).trans (totalsFitWith_iff.mp hfit v.id)
  rw [exponentOf_eq, exponentOf_eq, exponentOf_eq, hm.exponentMap_eq, Finsupp.add_apply,
    UInt32.toNat_add, Nat.mod_eq_of_lt hsum]

/-- **Signatures are canonical, and the algebra of monomials respects them.** For monomials with as
many exponents as factors, two have one signature exactly when every variable has one exponent in
both. A normal form keeps coefficient and signature, has every variable once and with a positive
exponent, and has them in the order of their first factors. There is a product, again with as many
exponents as factors; the exponents in it are the sums, so up to the signature products commute and
associate. The sums are those of words, and of numbers where they fit in a word. -/
theorem signatures_canonical {a b c : Monomial α} (ha : a.exponents.length = a.vars.length)
    (hb : b.exponents.length = b.vars.length) (hc : c.exponents.length = c.vars.length) :
    (a.sameSignature b = true ↔ ∀ v : Variable α, a.exponentOf v = b.exponentOf v) ∧
    (a.normalized.coefficient = a.coefficient ∧ a.normalized.signature = a.signature ∧
      a.normalized.Normal ∧ Variable.InFirstPlaces a.vars a.normalized.vars) ∧
    ∃ ab ba bc abThenC aThenBc, a.times b = some ab ∧ b.times a = some ba ∧
      b.times c = some bc ∧ ab.times c = some abThenC ∧ a.times bc = some aThenBc ∧
      ab.exponents.length = ab.vars.length ∧
      (∀ v : Variable α, ab.exponentOf v = a.exponentOf v + b.exponentOf v) ∧
      (a.TotalsFitWith b → ∀ v : Variable α,
        (ab.exponentOf v).toNat = (a.exponentOf v).toNat + (b.exponentOf v).toNat) ∧
      ab.signature = ba.signature ∧ abThenC.signature = aThenBc.signature := by
  obtain ⟨ab, hab, hablen, habprod⟩ := exists_times_of_length ha hb
  obtain ⟨ba, hba, -, hbaprod⟩ := exists_times_of_length hb ha
  obtain ⟨bc, hbc, hbclen, hbcprod⟩ := exists_times_of_length hb hc
  obtain ⟨l, hl, -, hlprod⟩ := exists_times_of_length hablen hc
  obtain ⟨r, hr, -, hrprod⟩ := exists_times_of_length ha hbclen
  refine ⟨sameSignature_iff.trans exponentMap_eq_iff,
    ⟨rfl, signature_eq_iff.mpr a.exponentMap_normalized, a.normal_normalized,
      inFirstPlaces_vars_normalized ha⟩,
    ab, ba, bc, l, r, hab, hba, hbc, hl, hr, hablen, fun v => ?_,
    fun hfit => habprod.toNat_exponentOf hfit, ?_, ?_⟩
  · rw [exponentOf_eq, exponentOf_eq, exponentOf_eq, habprod.exponentMap_eq, Finsupp.add_apply]
  · exact habprod.signature_eq hbaprod (add_comm _ _)
  · refine hlprod.signature_eq hrprod ?_
    rw [habprod.exponentMap_eq, hbcprod.exponentMap_eq, add_assoc]

/-- `2 x^0 y x` and `3 y x` are alike and are multiplied in either order to `x^2 y^2`. -/
theorem signatures_canonical_repeated :
    let x : Variable ℤ := ⟨⟨0⟩, .continuous, 0, 1⟩
    let y : Variable ℤ := ⟨⟨1⟩, .continuous, 0, 1⟩
    let a : Monomial ℤ := ⟨2, [x, y, x], [0, 1, 1]⟩
    let b : Monomial ℤ := ⟨3, [y, x], [1, 1]⟩
    (a.exponents.length = a.vars.length ∧ b.exponents.length = b.vars.length) ∧
      (∀ v, a.exponentOf v = b.exponentOf v) ∧ a.normalized.vars.map (·.id) = [x.id, y.id] ∧
      a.normalized.signature = b.signature ∧
      ∃ ab ba, a.times b = some ab ∧ b.times a = some ba ∧
        ab.signature = [(x.id, 2), (y.id, 2)] ∧ ba.signature = [(x.id, 2), (y.id, 2)] := by
  intro x y a b
  have ha : a.exponents.length = a.vars.length := rfl
  have hb : b.exponents.length = b.vars.length := rfl
  have hsame : a.sameSignature b = true := by decide
  obtain ⟨hiff, ⟨-, hnormal, -, -⟩, ab, ba, -, -, -, hab, hba, -, -, -, -, -, -, hcomm, -⟩ :=
    signatures_canonical ha hb ha
  have hproduct : ab.signature = [(x.id, 2), (y.id, 2)] := by
    have htimes : a.times b = some ⟨6, [x, y, x], [1, 2, 1]⟩ := rfl
    cases htimes.symm.trans hab
    decide
  exact ⟨⟨ha, hb⟩, hiff.mp hsame, by decide, hnormal.trans (of_decide_eq_true hsame), ab, ba, hab,
    hba, hproduct, hcomm.symm.trans hproduct⟩

end Monomial

end DecisionAlgebra
