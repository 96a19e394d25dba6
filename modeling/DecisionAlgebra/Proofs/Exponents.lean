import DecisionAlgebra.Monomial
import Mathlib.Algebra.BigOperators.Group.List.Basic
import Mathlib.Data.Finsupp.Weight
import Mathlib.Data.List.Sort
import Mathlib.Data.UInt

/-!
# Exponent maps

A monomial may write a variable several times and with exponent zero. What counts is its exponent
map: the total exponent of each identifier, as a finitely supported function. Everything that
rewrites a list of factors (merging, sorting, dropping zeros, multiplying) is described here by what
it does to that map, and the signature of a monomial is shown to be its exponent map in sorted form.

Exponents are words and their totals wrap around, so none of this needs a bound.
-/

namespace DecisionAlgebra

variable {α : Type}

@[simp] theorem Variable.beq_iff {v w : Variable α} : (v == w) = true ↔ v.id = w.id := by
  show (v.id == w.id) = true ↔ _
  exact beq_iff_eq

@[simp] theorem Variable.beq_eq_false_iff {v w : Variable α} : (v == w) = false ↔ v.id ≠ w.id := by
  show (v.id == w.id) = false ↔ _
  exact beq_eq_false_iff_ne

/-! ## Totals of a list of powers -/

/-- The total exponent of each identifier in a list of powers, whose bases are named by `name`. -/
noncomputable def exponentSum {κ M : Type} [AddCommMonoid M] (name : κ → VariableId)
    (fs : List (κ × M)) : VariableId →₀ M :=
  (fs.map fun f => Finsupp.single (name f.1) f.2).sum

section ExponentSum

variable {κ M : Type} [AddCommMonoid M] {name : κ → VariableId}

@[simp] theorem exponentSum_nil : exponentSum name ([] : List (κ × M)) = 0 := rfl

@[simp] theorem exponentSum_cons (f : κ × M) (fs : List (κ × M)) :
    exponentSum name (f :: fs) = Finsupp.single (name f.1) f.2 + exponentSum name fs := by
  simp [exponentSum]

@[simp] theorem exponentSum_append (fs gs : List (κ × M)) :
    exponentSum name (fs ++ gs) = exponentSum name fs + exponentSum name gs := by
  simp [exponentSum]

/-- Zero exponents do not count. -/
@[simp] theorem exponentSum_filter_pos (fs : List (κ × UInt32)) :
    exponentSum name (fs.filter (0 < ·.2)) = exponentSum name fs := by
  induction fs with
  | nil => rfl
  | cons f fs ih =>
    by_cases hf : 0 < f.2
    · rw [List.filter_cons_of_pos (by simpa using hf), exponentSum_cons, exponentSum_cons, ih]
    · have hz : f.2 = 0 := by simpa using hf
      rw [List.filter_cons_of_neg (by simpa using hf), exponentSum_cons, ih, hz,
        Finsupp.single_zero, zero_add]

/-- Steps that each add one power to a list add up. -/
theorem exponentSum_foldl {κ' : Type} {name' : κ' → VariableId}
    {step : List (κ × M) → κ' × M → List (κ × M)}
    (hstep : ∀ gs f, exponentSum name (step gs f) =
      Finsupp.single (name' f.1) f.2 + exponentSum name gs) (fs : List (κ' × M)) :
    ∀ gs, exponentSum name (fs.foldl step gs) = exponentSum name' fs + exponentSum name gs := by
  -- the list in progress changes with every step, so it stays general
  induction fs with
  | nil => intro gs; rw [List.foldl_nil, exponentSum_nil, zero_add]
  | cons f fs ih =>
    intro gs
    rw [List.foldl_cons, ih, hstep, exponentSum_cons, ← add_assoc, add_comm (exponentSum name' fs)]

/-- A total is the sum of the exponents written for an identifier. -/
theorem exponentSum_apply (fs : List (κ × M)) (id : VariableId) :
    exponentSum name fs id = ((fs.filter fun f => name f.1 = id).map (·.2)).sum := by
  induction fs with
  | nil => rfl
  | cons f fs ih =>
    rw [exponentSum_cons, Finsupp.add_apply, ih]
    by_cases hf : name f.1 = id
    · rw [List.filter_cons_of_pos (by simpa using hf), hf, Finsupp.single_eq_same]
      simp
    · rw [List.filter_cons_of_neg (by simpa using hf), Finsupp.single_eq_of_ne (Ne.symm hf),
        zero_add]

/-- A total that is not zero comes from a power with an exponent that is not zero. -/
theorem exists_mem_of_exponentSum_ne_zero {fs : List (κ × M)} {id : VariableId}
    (h : exponentSum name fs id ≠ 0) : ∃ f ∈ fs, name f.1 = id ∧ f.2 ≠ 0 := by
  rw [exponentSum_apply] at h
  by_contra hne
  push Not at hne
  refine absurd (List.sum_eq_zero ?_) h
  intro e he
  obtain ⟨f, hf, rfl⟩ := List.mem_map.mp he
  obtain ⟨hmem, hid⟩ := List.mem_filter.mp hf
  exact hne f hmem (by simpa using hid)

/-- Where no identifier is repeated, a total is the one exponent written. -/
theorem exponentSum_of_nodup {fs : List (κ × M)} (hfs : (fs.map (name ·.1)).Nodup)
    {f : κ × M} (hf : f ∈ fs) : exponentSum name fs (name f.1) = f.2 := by
  induction fs with
  | nil => cases hf
  | cons g fs ih =>
    rw [List.map_cons, List.nodup_cons] at hfs
    rw [exponentSum_cons, Finsupp.add_apply]
    rcases List.mem_cons.mp hf with rfl | hf'
    · -- the head has this identifier, so no power behind it has
      have hzero : exponentSum name fs (name f.1) = 0 := by
        by_contra hne
        obtain ⟨k, hk, hid, -⟩ := exists_mem_of_exponentSum_ne_zero hne
        exact hfs.1 (hid ▸ List.mem_map_of_mem hk)
      rw [Finsupp.single_eq_same, hzero, add_zero]
    · have hne : name f.1 ≠ name g.1 := fun h => hfs.1 (h ▸ List.mem_map_of_mem hf')
      rw [Finsupp.single_eq_of_ne hne, zero_add, ih hfs.2 hf']

/-- The degree of the totals is the sum of all exponents written. -/
theorem degree_exponentSum (fs : List (κ × M)) :
    (exponentSum name fs).degree = (fs.map (·.2)).sum := by
  induction fs with
  | nil => simp
  | cons f fs ih => rw [exponentSum_cons, map_add, ih, Finsupp.degree_single, List.map_cons,
      List.sum_cons]

end ExponentSum

namespace Monomial

/-- The total exponent of each identifier in a monomial. -/
noncomputable def exponentMap (m : Monomial α) : VariableId →₀ UInt32 :=
  exponentSum Variable.id m.factors

/-! ## Reading a monomial -/

@[simp] theorem factors_ofFactors (c : α) (fs : List (Variable α × UInt32)) :
    (ofFactors c fs).factors = fs := by
  show List.zip (fs.map (·.1)) (fs.map (·.2)) = fs
  rw [List.zip_map']
  exact List.map_id _

@[simp] theorem exponentMap_withCoefficient (m : Monomial α) (c : α) :
    (m.withCoefficient c).exponentMap = m.exponentMap := rfl

@[simp] theorem exponentMap_constant (c : α) : (constant c).exponentMap = 0 := rfl

@[simp] theorem exponentMap_ofFactors (c : α) (fs : List (Variable α × UInt32)) :
    (ofFactors c fs).exponentMap = exponentSum Variable.id fs := by
  rw [exponentMap, factors_ofFactors]

/-- The exponent of a variable is the value of the exponent map at its identifier. -/
theorem exponentOf_eq (m : Monomial α) (v : Variable α) : m.exponentOf v = m.exponentMap v.id := by
  rw [exponentMap, exponentSum_apply]
  rfl

/-- Where there is an exponent for each variable, the degree is that of the exponent map. -/
theorem degree_eq {m : Monomial α} (hm : m.exponents.length = m.vars.length) :
    m.degree = m.exponentMap.degree := by
  rw [exponentMap, degree_exponentSum, factors, List.map_snd_zip hm.le, degree, List.sum]

/-! ## Merging factors -/

theorem exponentSum_addFactor (f : Variable α × UInt32) (fs : List (Variable α × UInt32)) :
    exponentSum Variable.id (addFactor f fs) =
      Finsupp.single f.1.id f.2 + exponentSum Variable.id fs := by
  induction fs with
  | nil => rfl
  | cons g fs ih =>
    by_cases h : g.1.id = f.1.id
    · rw [addFactor, if_pos (Variable.beq_iff.mpr h), exponentSum_cons, exponentSum_cons, h,
        Finsupp.single_add, ← add_assoc, add_comm (Finsupp.single f.1.id g.2)]
    · rw [addFactor, if_neg (fun hb => h (Variable.beq_iff.mp hb)), exponentSum_cons, ih,
        exponentSum_cons, add_left_comm]

/-- Adding a factor brings in no identifier but its own. -/
theorem mem_ids_addFactor {f : Variable α × UInt32} {fs : List (Variable α × UInt32)}
    {id : VariableId} :
    id ∈ (addFactor f fs).map (·.1.id) ↔ id = f.1.id ∨ id ∈ fs.map (·.1.id) := by
  induction fs with
  | nil => simp [addFactor]
  | cons g fs ih =>
    by_cases h : g.1.id = f.1.id
    · rw [addFactor, if_pos (Variable.beq_iff.mpr h), List.map_cons, List.map_cons, List.mem_cons,
        h]
      tauto
    · rw [addFactor, if_neg (fun hb => h (Variable.beq_iff.mp hb)), List.map_cons, List.map_cons,
        List.mem_cons, List.mem_cons, ih]
      tauto

theorem nodup_ids_addFactor {f : Variable α × UInt32} {fs : List (Variable α × UInt32)}
    (hfs : (fs.map (·.1.id)).Nodup) : ((addFactor f fs).map (·.1.id)).Nodup := by
  induction fs with
  | nil => simp [addFactor]
  | cons g fs ih =>
    rw [List.map_cons, List.nodup_cons] at hfs
    by_cases h : g.1.id = f.1.id
    · rw [addFactor, if_pos (Variable.beq_iff.mpr h), List.map_cons, List.nodup_cons]
      exact hfs
    · rw [addFactor, if_neg (fun hb => h (Variable.beq_iff.mp hb)), List.map_cons,
        List.nodup_cons, mem_ids_addFactor]
      exact ⟨fun hmem => hmem.elim h hfs.1, ih hfs.2⟩

/-- Merging keeps the identifiers, those of a list in progress included. -/
theorem mem_ids_merge {fs : List (Variable α × UInt32)} {id : VariableId} :
    ∀ gs : List (Variable α × UInt32),
      id ∈ (fs.foldl (fun gs f => addFactor f gs) gs).map (·.1.id) ↔
        id ∈ fs.map (·.1.id) ∨ id ∈ gs.map (·.1.id) := by
  induction fs with
  | nil => intro gs; simp
  | cons f fs ih =>
    intro gs
    rw [List.foldl_cons, ih, mem_ids_addFactor, List.map_cons, List.mem_cons]
    tauto

theorem nodup_ids_merge (fs : List (Variable α × UInt32)) :
    ∀ gs : List (Variable α × UInt32), (gs.map (·.1.id)).Nodup →
      ((fs.foldl (fun gs f => addFactor f gs) gs).map (·.1.id)).Nodup := by
  induction fs with
  | nil => intro gs hgs; exact hgs
  | cons f fs ih => intro gs hgs; exact ih _ (nodup_ids_addFactor hgs)

theorem exponentSum_mergedFactors (m : Monomial α) :
    exponentSum Variable.id m.mergedFactors = m.exponentMap := by
  have h := exponentSum_foldl (fun gs f => exponentSum_addFactor (α := α) f gs) m.factors []
  rw [exponentSum_nil, add_zero] at h
  exact h

@[simp] theorem exponentMap_normalized (m : Monomial α) :
    m.normalized.exponentMap = m.exponentMap := by
  rw [normalized, exponentMap_ofFactors, exponentSum_filter_pos, exponentSum_mergedFactors]

/-- A normal monomial writes every variable once and with a positive exponent. -/
structure Normal (m : Monomial α) : Prop where
  length_eq : m.exponents.length = m.vars.length
  nodup : (m.factors.map (·.1.id)).Nodup
  pos : ∀ f ∈ m.factors, 0 < f.2

theorem normal_normalized (m : Monomial α) : m.normalized.Normal where
  length_eq := by simp [normalized, ofFactors]
  nodup := by
    rw [normalized, factors_ofFactors]
    exact (nodup_ids_merge m.factors [] List.nodup_nil).sublist (List.filter_sublist.map _)
  pos := by
    intro f hf
    rw [normalized, factors_ofFactors] at hf
    simpa using (List.mem_filter.mp hf).2

/-- A factor with a new variable comes last. -/
theorem addFactor_of_notMem {f : Variable α × UInt32} {fs : List (Variable α × UInt32)}
    (h : f.1.id ∉ fs.map (·.1.id)) : addFactor f fs = fs ++ [f] := by
  induction fs with
  | nil => rfl
  | cons g fs ih =>
    rw [List.map_cons, List.mem_cons, not_or] at h
    rw [addFactor, if_neg fun hb => h.1 (Variable.beq_iff.mp hb).symm, ih h.2, List.cons_append]

/-- There is nothing to merge where no variable is repeated. -/
theorem mergedFactors_of_nodup {m : Monomial α} (hm : (m.factors.map (·.1.id)).Nodup) :
    m.mergedFactors = m.factors := by
  have hmerge : ∀ fs gs : List (Variable α × UInt32), ((gs ++ fs).map (·.1.id)).Nodup →
      fs.foldl (fun gs f => addFactor f gs) gs = gs ++ fs := by
    intro fs
    induction fs with
    | nil => intro gs _; rw [List.foldl_nil, List.append_nil]
    | cons f fs ih =>
      intro gs h
      -- the factor in turn is new to the list in progress
      have hnew : f.1.id ∉ gs.map (·.1.id) := by
        rw [List.map_append, List.map_cons, List.nodup_append] at h
        exact fun hmem => h.2.2 _ hmem _ List.mem_cons_self rfl
      rw [List.foldl_cons, addFactor_of_notMem hnew, ih _ (by simpa using h), List.append_assoc,
        List.singleton_append]
  exact hmerge m.factors [] hm

/-- A monomial in normal form is its own normal form. -/
theorem Normal.normalized_eq {m : Monomial α} (hm : m.Normal) : m.normalized = m := by
  have hpos : m.factors.filter (0 < ·.2) = m.factors :=
    List.filter_eq_self.mpr fun f hf => by simpa using hm.pos f hf
  rw [normalized, mergedFactors_of_nodup hm.nodup, hpos, ofFactors, factors,
    List.map_fst_zip hm.length_eq.ge, List.map_snd_zip hm.length_eq.le]

theorem Normal.withCoefficient {m : Monomial α} (hm : m.Normal) (c : α) :
    (m.withCoefficient c).Normal := ⟨hm.length_eq, hm.nodup, hm.pos⟩

/-- The factors of a normal monomial are its exponent map. -/
theorem Normal.exponent_eq {m : Monomial α} (hm : m.Normal) {f : Variable α × UInt32}
    (hf : f ∈ m.factors) : m.exponentMap f.1.id = f.2 :=
  exponentSum_of_nodup hm.nodup hf

/-! ## Signatures -/

/-- The identifiers of a list of powers ascend. -/
def Ascending (s : List (VariableId × UInt32)) : Prop :=
  s.Pairwise fun f g => f.1.index < g.1.index

theorem exponentSum_addSorted (id : VariableId) (e : UInt32) (s : List (VariableId × UInt32)) :
    exponentSum (fun i => i) (addSorted id e s) =
      Finsupp.single id e + exponentSum (fun i => i) s := by
  induction s with
  | nil => rfl
  | cons f s ih =>
    obtain ⟨j, k⟩ := f
    rw [addSorted]
    by_cases hlt : id.index < j.index
    · rw [if_pos hlt, exponentSum_cons]
    · rw [if_neg hlt]
      by_cases heq : id = j
      · rw [if_pos heq, exponentSum_cons, exponentSum_cons, heq, Finsupp.single_add, ← add_assoc,
          add_comm (Finsupp.single j k)]
      · rw [if_neg heq, exponentSum_cons, ih, exponentSum_cons, add_left_comm]

theorem mem_ids_addSorted {id j : VariableId} {e : UInt32} {s : List (VariableId × UInt32)} :
    j ∈ (addSorted id e s).map (·.1) ↔ j = id ∨ j ∈ s.map (·.1) := by
  induction s with
  | nil => simp [addSorted]
  | cons f s ih =>
    obtain ⟨i, k⟩ := f
    rw [addSorted]
    by_cases hlt : id.index < i.index
    · rw [if_pos hlt, List.map_cons, List.mem_cons]
    · rw [if_neg hlt]
      by_cases heq : id = i
      · rw [if_pos heq, List.map_cons, List.map_cons, List.mem_cons, heq]
        tauto
      · rw [if_neg heq, List.map_cons, List.map_cons, List.mem_cons, List.mem_cons, ih]
        tauto

theorem ascending_addSorted {id : VariableId} {e : UInt32} {s : List (VariableId × UInt32)}
    (hs : Ascending s) : Ascending (addSorted id e s) := by
  induction s with
  | nil => exact List.pairwise_singleton _ _
  | cons f s ih =>
    obtain ⟨j, k⟩ := f
    obtain ⟨hhead, htail⟩ := List.pairwise_cons.mp hs
    rw [addSorted]
    by_cases hlt : id.index < j.index
    · rw [if_pos hlt]
      refine List.pairwise_cons.mpr ⟨fun g hg => ?_, hs⟩
      rcases List.mem_cons.mp hg with rfl | hg'
      · exact hlt
      · exact hlt.trans (hhead g hg')
    · rw [if_neg hlt]
      by_cases heq : id = j
      · rw [if_pos heq]
        exact List.pairwise_cons.mpr ⟨hhead, htail⟩
      · rw [if_neg heq]
        refine List.pairwise_cons.mpr ⟨fun g hg => ?_, ih htail⟩
        rcases mem_ids_addSorted.mp (List.mem_map_of_mem hg) with hid | hmem
        · -- the new identifier is neither below the head nor the head itself
          have hne : id.index ≠ j.index := fun h => heq (by cases id; cases j; exact congrArg _ h)
          rw [hid]
          show j.index < id.index
          omega
        · obtain ⟨h, hh, hid⟩ := List.mem_map.mp hmem
          rw [← hid]
          exact hhead h hh

theorem ascending_signature (m : Monomial α) : Ascending m.signature := by
  have h : ∀ (fs : List (Variable α × UInt32)) (s : List (VariableId × UInt32)), Ascending s →
      Ascending (fs.foldl (fun s f => addSorted f.1.id f.2 s) s) := by
    intro fs
    induction fs with
    | nil => intro s hs; exact hs
    | cons f fs ih => intro s hs; exact ih _ (ascending_addSorted hs)
  exact (h m.factors [] List.Pairwise.nil).sublist List.filter_sublist

theorem exponentSum_signature (m : Monomial α) :
    exponentSum (fun i => i) m.signature = m.exponentMap := by
  have hstep : ∀ (s : List (VariableId × UInt32)) (f : Variable α × UInt32),
      exponentSum (fun i => i) (addSorted f.1.id f.2 s) =
        Finsupp.single f.1.id f.2 + exponentSum (fun i => i) s :=
    fun s f => exponentSum_addSorted f.1.id f.2 s
  have h := exponentSum_foldl hstep m.factors []
  rw [exponentSum_nil, add_zero] at h
  rw [signature, exponentSum_filter_pos]
  exact h

/-- A signature lists the positive part of the exponent map. -/
theorem mem_signature {m : Monomial α} {f : VariableId × UInt32} :
    f ∈ m.signature ↔ m.exponentMap f.1 = f.2 ∧ 0 < f.2 := by
  have hnodup : (m.signature.map fun f => f.1).Nodup :=
    List.pairwise_map.mpr ((ascending_signature m).imp fun h heq => by rw [heq] at h; omega)
  have hvalue : ∀ g ∈ m.signature, m.exponentMap g.1 = g.2 := by
    intro g hg
    rw [← exponentSum_signature]
    exact exponentSum_of_nodup hnodup hg
  constructor
  · intro hf
    exact ⟨hvalue f hf, by simpa using (List.mem_filter.mp hf).2⟩
  · intro h
    obtain ⟨heq, hpos⟩ := h
    -- some power with this identifier is listed, and it is listed with the total
    rw [← heq, ← exponentSum_signature] at hpos
    obtain ⟨g, hg, hid, -⟩ := exists_mem_of_exponentSum_ne_zero (UInt32.pos_iff_ne_zero.mp hpos)
    have hexp := hvalue g hg
    rw [hid, heq] at hexp
    have hgf : g = f := Prod.ext hid hexp.symm
    exact hgf ▸ hg

/-- **Signatures are canonical**: two monomials have one signature exactly when they have one
exponent map. -/
theorem signature_eq_iff {a b : Monomial α} :
    a.signature = b.signature ↔ a.exponentMap = b.exponentMap := by
  constructor
  · intro h
    rw [← exponentSum_signature, ← exponentSum_signature, h]
  · intro h
    have : Std.Irrefl fun f g : VariableId × UInt32 => f.1.index < g.1.index :=
      ⟨fun f => lt_irrefl f.1.index⟩
    have : Std.Antisymm fun f g : VariableId × UInt32 => f.1.index < g.1.index :=
      ⟨fun f g hfg hgf => absurd hfg hgf.asymm⟩
    -- two ascending lists with the same members are one list
    refine List.Pairwise.eq_of_mem_iff (ascending_signature a) (ascending_signature b) fun f => ?_
    rw [mem_signature, mem_signature, h]

theorem sameSignature_iff {a b : Monomial α} :
    a.sameSignature b = true ↔ a.exponentMap = b.exponentMap := by
  rw [sameSignature, decide_eq_true_iff, signature_eq_iff]

end Monomial

end DecisionAlgebra
