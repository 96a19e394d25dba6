import DecisionAlgebra.Proofs.Exponents
import Mathlib.Data.Finsupp.Order

/-!
# Exact totals

Beside the exponent map of a monomial, whose totals are words, stands its exact map, whose totals
are numbers. The exact map reduces to the exponent map, and a word added to a word is at most the
sum of the two. So where the exact totals fit in a word, both maps say the same and the arithmetic
of words is that of numbers. They always fit where no variable is written twice, as in a normal
form.
-/

namespace DecisionAlgebra

variable {α : Type}

/-! ## Words and numbers -/

/-- The word of a number. -/
noncomputable def wordOf : ℕ →+ UInt32 where
  toFun := UInt32.ofNat
  map_zero' := rfl
  map_add' := UInt32.ofNat_add

theorem toNat_wordOf (n : ℕ) : (wordOf n).toNat = n % UInt32.size := UInt32.toNat_ofNat'

@[simp] theorem wordOf_toNat (e : UInt32) : wordOf e.toNat = e := UInt32.ofNat_toNat

theorem wordOf_sum (es : List UInt32) :
    wordOf (es.map UInt32.toNat).sum = es.foldr (· + ·) 0 := by
  induction es with
  | nil => exact map_zero wordOf
  | cons e es ih => rw [List.map_cons, List.sum_cons, map_add, ih, wordOf_toNat, List.foldr_cons]

/-- Each total as a word. -/
noncomputable def wordsOf : (VariableId →₀ ℕ) →+ (VariableId →₀ UInt32) :=
  Finsupp.mapRange.addMonoidHom wordOf

@[simp] theorem wordsOf_apply (s : VariableId →₀ ℕ) (id : VariableId) :
    wordsOf s id = wordOf (s id) := rfl

@[simp] theorem wordsOf_single (id : VariableId) (n : ℕ) :
    wordsOf (Finsupp.single id n) = Finsupp.single id (wordOf n) := by
  rw [wordsOf, Finsupp.mapRange.addMonoidHom_apply, Finsupp.mapRange_single]

/-- Totals that fit in a word are told apart by their words. -/
theorem eq_of_wordsOf_eq {s t : VariableId →₀ ℕ} (hs : ∀ id, s id < UInt32.size)
    (ht : ∀ id, t id < UInt32.size) (h : wordsOf s = wordsOf t) : s = t := by
  ext id
  have hid : wordOf (s id) = wordOf (t id) := DFunLike.congr_fun h id
  have hnat := congrArg UInt32.toNat hid
  rwa [toNat_wordOf, toNat_wordOf, Nat.mod_eq_of_lt (hs id), Nat.mod_eq_of_lt (ht id)] at hnat

section ExactSum

variable {κ : Type} {name : κ → VariableId}

/-- The exact total exponent of each identifier in a list of powers. -/
noncomputable def exactSum (name : κ → VariableId) (fs : List (κ × UInt32)) : VariableId →₀ ℕ :=
  exponentSum name (fs.map fun f => (f.1, f.2.toNat))

@[simp] theorem exactSum_nil : exactSum name [] = 0 := rfl

@[simp] theorem exactSum_cons (f : κ × UInt32) (fs : List (κ × UInt32)) :
    exactSum name (f :: fs) = Finsupp.single (name f.1) f.2.toNat + exactSum name fs :=
  exponentSum_cons _ _

@[simp] theorem exactSum_append (fs gs : List (κ × UInt32)) :
    exactSum name (fs ++ gs) = exactSum name fs + exactSum name gs := by
  rw [exactSum, List.map_append, exponentSum_append]
  rfl

/-- The exact totals reduce to the totals. -/
theorem wordsOf_exactSum (fs : List (κ × UInt32)) :
    wordsOf (exactSum name fs) = exponentSum name fs := by
  induction fs with
  | nil => exact map_zero wordsOf
  | cons f fs ih => rw [exactSum_cons, map_add, ih, wordsOf_single, wordOf_toNat, exponentSum_cons]

theorem exactSum_apply (fs : List (κ × UInt32)) (id : VariableId) :
    exactSum name fs id = ((fs.filter fun f => name f.1 = id).map (·.2.toNat)).sum := by
  rw [exactSum, exponentSum_apply, List.filter_map, List.map_map]
  rfl

theorem le_exactSum_of_mem {fs : List (κ × UInt32)} {f : κ × UInt32} (hf : f ∈ fs) :
    f.2.toNat ≤ exactSum name fs (name f.1) := by
  rw [exactSum_apply]
  exact List.le_sum_of_mem (List.mem_map_of_mem (List.mem_filter.mpr ⟨hf, by simp⟩))

/-- A positive exact total comes from a power with a positive exponent. -/
theorem exists_mem_of_exactSum_pos {fs : List (κ × UInt32)} {id : VariableId}
    (h : 0 < exactSum name fs id) : ∃ f ∈ fs, name f.1 = id ∧ 0 < f.2 := by
  obtain ⟨g, hg, hid, hne⟩ := exists_mem_of_exponentSum_ne_zero h.ne'
  obtain ⟨f, hf, rfl⟩ := List.mem_map.mp hg
  exact ⟨f, hf, hid, UInt32.lt_iff_toNat_lt.mpr (Nat.pos_of_ne_zero hne)⟩

/-- Where no identifier is repeated, an exact total is the one exponent written. -/
theorem exactSum_of_nodup {fs : List (κ × UInt32)} (hfs : (fs.map (name ·.1)).Nodup)
    {f : κ × UInt32} (hf : f ∈ fs) : exactSum name fs (name f.1) = f.2.toNat := by
  have hids : ((fs.map fun f => (f.1, f.2.toNat)).map (name ·.1)).Nodup := by
    rw [List.map_map]
    exact hfs
  exact exponentSum_of_nodup hids (List.mem_map_of_mem hf)

theorem degree_exactSum (fs : List (κ × UInt32)) :
    (exactSum name fs).degree = (fs.map (·.2.toNat)).sum := by
  rw [exactSum, degree_exponentSum, List.map_map]
  rfl

/-- A word added to a word is at most the sum of the two. -/
theorem toNat_add_le (a b : UInt32) : (a + b).toNat ≤ a.toNat + b.toNat :=
  UInt32.toNat_add a b ▸ Nat.mod_le _ _

/-- One more is one more as a number, unless it wraps around to zero. -/
theorem toNat_add_one {e : UInt32} (h : e + 1 ≠ 0) : (e + 1).toNat = e.toNat + 1 := by
  have hlt := e.toNat_lt
  have hne : (e + 1).toNat ≠ 0 := fun hzero => h (UInt32.toNat_inj.mp hzero)
  rw [UInt32.toNat_add, UInt32.toNat_one] at hne ⊢
  omega

theorem single_toNat_add_le (id : VariableId) (a b : UInt32) :
    Finsupp.single id (a + b).toNat ≤ Finsupp.single id a.toNat + Finsupp.single id b.toNat := by
  rw [← Finsupp.single_add]
  exact Finsupp.single_le_single.mpr (toNat_add_le a b)

end ExactSum

namespace Monomial

/-- The exact total exponent of each identifier in a monomial. -/
noncomputable def exactMap (m : Monomial α) : VariableId →₀ ℕ := exactSum Variable.id m.factors

/-- The exact total exponent of a variable. -/
def exactExponent (m : Monomial α) (v : Variable α) : ℕ :=
  ((m.factors.filter (·.1 == v)).map (·.2.toNat)).sum

/-! ## Reading a monomial -/

@[simp] theorem exactMap_withCoefficient (m : Monomial α) (c : α) :
    (m.withCoefficient c).exactMap = m.exactMap := rfl

@[simp] theorem exactMap_constant (c : α) : (constant c).exactMap = 0 := rfl

@[simp] theorem exactMap_term (v : Variable α) (c : α) :
    (term v c).exactMap = Finsupp.single v.id 1 := by
  simp [exactMap, factors, term]

@[simp] theorem exactMap_ofFactors (c : α) (fs : List (Variable α × UInt32)) :
    (ofFactors c fs).exactMap = exactSum Variable.id fs := by
  rw [exactMap, factors_ofFactors]

/-- The exact map reduces to the exponent map. -/
@[simp] theorem wordsOf_exactMap (m : Monomial α) : wordsOf m.exactMap = m.exponentMap :=
  wordsOf_exactSum m.factors

theorem exactMap_apply (m : Monomial α) (v : Variable α) : m.exactMap v.id = m.exactExponent v := by
  rw [exactMap, exactSum_apply]
  rfl

/-! ## Totals that fit -/

/-- No variable has an exact total exponent above `n`. -/
def TotalsWithin (n : ℕ) (m : Monomial α) : Prop := ∀ f ∈ m.factors, m.exactExponent f.1 ≤ n

/-- The largest word. -/
def largestWord : ℕ := 4294967295

/-- The exact total exponent of each variable fits in a word. -/
def TotalsFit (m : Monomial α) : Prop := m.TotalsWithin largestWord

instance (n : ℕ) (m : Monomial α) : Decidable (m.TotalsWithin n) :=
  inferInstanceAs (Decidable (∀ f ∈ m.factors, m.exactExponent f.1 ≤ n))

instance (m : Monomial α) : Decidable m.TotalsFit :=
  inferInstanceAs (Decidable (m.TotalsWithin largestWord))

theorem totalsWithin_iff {n : ℕ} {m : Monomial α} :
    m.TotalsWithin n ↔ ∀ id, m.exactMap id ≤ n := by
  constructor
  · intro h id
    rcases Nat.eq_zero_or_pos (m.exactMap id) with hzero | hpos
    · rw [hzero]
      exact Nat.zero_le n
    · obtain ⟨f, hf, rfl, -⟩ := exists_mem_of_exactSum_pos hpos
      exact (m.exactMap_apply f.1).le.trans (h f hf)
  · intro h f hf
    rw [← exactMap_apply]
    exact h f.1.id

theorem TotalsWithin.mono {n k : ℕ} {m : Monomial α} (hm : m.TotalsWithin n) (h : n ≤ k) :
    m.TotalsWithin k :=
  fun f hf => (hm f hf).trans h

theorem TotalsFit.lt {m : Monomial α} (hm : m.TotalsFit) (id : VariableId) :
    m.exactMap id < UInt32.size :=
  Nat.lt_succ_of_le (totalsWithin_iff.mp hm id)

/-- A total is at most the exact total. -/
theorem toNat_exponentMap_le (m : Monomial α) (id : VariableId) :
    (m.exponentMap id).toNat ≤ m.exactMap id := by
  rw [← wordsOf_exactMap, wordsOf_apply, toNat_wordOf]
  exact Nat.mod_le _ _

/-- Where the totals fit, the exact total is the number of the total. -/
theorem TotalsFit.exactMap_eq {m : Monomial α} (hm : m.TotalsFit) (id : VariableId) :
    m.exactMap id = (m.exponentMap id).toNat := by
  rw [← wordsOf_exactMap, wordsOf_apply, toNat_wordOf, Nat.mod_eq_of_lt (hm.lt id)]

/-- Where the totals fit, the two maps tell monomials apart alike. -/
theorem TotalsFit.exactMap_eq_iff {a b : Monomial α} (ha : a.TotalsFit) (hb : b.TotalsFit) :
    a.exactMap = b.exactMap ↔ a.exponentMap = b.exponentMap := by
  constructor
  · intro h
    rw [← wordsOf_exactMap, ← wordsOf_exactMap, h]
  · intro h
    refine eq_of_wordsOf_eq ha.lt hb.lt ?_
    rw [wordsOf_exactMap, wordsOf_exactMap, h]

/-- A monomial that writes no variable twice has totals that fit. -/
theorem totalsFit_of_nodup {m : Monomial α} (hm : (m.factors.map (·.1.id)).Nodup) :
    m.TotalsFit := by
  intro f hf
  rw [← exactMap_apply, exactMap, exactSum_of_nodup hm hf]
  exact Nat.le_of_lt_succ f.2.toNat_lt

/-- The exact totals of the two together fit in a word. -/
def TotalsFitWith (a b : Monomial α) : Prop :=
  ∀ f ∈ a.factors ++ b.factors, a.exactExponent f.1 + b.exactExponent f.1 ≤ largestWord

instance (a b : Monomial α) : Decidable (a.TotalsFitWith b) :=
  inferInstanceAs (Decidable (∀ f ∈ a.factors ++ b.factors,
    a.exactExponent f.1 + b.exactExponent f.1 ≤ largestWord))

theorem totalsFitWith_iff {a b : Monomial α} :
    a.TotalsFitWith b ↔ ∀ id, a.exactMap id + b.exactMap id ≤ largestWord := by
  constructor
  · intro h id
    -- a variable that neither writes with a positive exponent has no total
    rcases Nat.eq_zero_or_pos (exactSum Variable.id (a.factors ++ b.factors) id) with hzero | hpos
    · rw [exactSum_append] at hzero
      exact hzero.le.trans (Nat.zero_le _)
    · obtain ⟨f, hf, rfl, -⟩ := exists_mem_of_exactSum_pos hpos
      rw [exactMap_apply, exactMap_apply]
      exact h f hf
  · intro h f hf
    rw [← exactMap_apply, ← exactMap_apply]
    exact h f.1.id

theorem TotalsWithin.totalsFitWith {k n : ℕ} {a b : Monomial α} (ha : a.TotalsWithin k)
    (hb : b.TotalsWithin n) (h : k + n ≤ largestWord) : a.TotalsFitWith b :=
  totalsFitWith_iff.mpr fun id =>
    (Nat.add_le_add (totalsWithin_iff.mp ha id) (totalsWithin_iff.mp hb id)).trans h

theorem TotalsWithin.withCoefficient {n : ℕ} {m : Monomial α} (hm : m.TotalsWithin n) (c : α) :
    (m.withCoefficient c).TotalsWithin n := hm

theorem totalsWithin_constant (n : ℕ) (c : α) : (constant c).TotalsWithin n := nofun

/-! ## Degrees that fit -/

/-- The exponents written add up to a number that fits in a word. -/
def DegreeFits (m : Monomial α) : Prop := (m.exponents.map UInt32.toNat).sum ≤ largestWord

instance (m : Monomial α) : Decidable m.DegreeFits :=
  inferInstanceAs (Decidable ((m.exponents.map UInt32.toNat).sum ≤ largestWord))

theorem degree_exactMap {m : Monomial α} (hm : m.exponents.length = m.vars.length) :
    m.exactMap.degree = (m.exponents.map UInt32.toNat).sum := by
  have hexponents : m.factors.map (·.2) = m.exponents := List.map_snd_zip hm.le
  rw [exactMap, degree_exactSum, ← hexponents, List.map_map]
  rfl

/-- Where the degree fits, it is the degree of the exact map. -/
theorem DegreeFits.toNat_degree {m : Monomial α} (hm : m.DegreeFits)
    (hlength : m.exponents.length = m.vars.length) : m.degree.toNat = m.exactMap.degree := by
  have hlt : (m.exponents.map UInt32.toNat).sum < UInt32.size := Nat.lt_succ_of_le hm
  rw [degree_exactMap hlength, degree, ← wordOf_sum, toNat_wordOf, Nat.mod_eq_of_lt hlt]

theorem DegreeFits.exactMap_eq_zero {m : Monomial α} (hm : m.DegreeFits)
    (hlength : m.exponents.length = m.vars.length) (h : m.degree = 0) : m.exactMap = 0 := by
  have hdegree := hm.toNat_degree hlength
  rw [h, UInt32.toNat_zero] at hdegree
  exact (Finsupp.degree_eq_zero_iff _).mp hdegree.symm

theorem DegreeFits.totalsFit {m : Monomial α} (hm : m.DegreeFits)
    (hlength : m.exponents.length = m.vars.length) : m.TotalsFit :=
  totalsWithin_iff.mpr fun id =>
    (Finsupp.le_degree id m.exactMap).trans ((degree_exactMap hlength).le.trans hm)

/-! ## Merging factors -/

theorem Normal.totalsFit {m : Monomial α} (hm : m.Normal) : m.TotalsFit :=
  totalsFit_of_nodup hm.nodup

/-- Where the totals fit, merging factors keeps the exact map. -/
theorem TotalsFit.exactMap_normalized {m : Monomial α} (hm : m.TotalsFit) :
    m.normalized.exactMap = m.exactMap :=
  (m.normal_normalized.totalsFit.exactMap_eq_iff hm).mpr m.exponentMap_normalized

end Monomial

end DecisionAlgebra
