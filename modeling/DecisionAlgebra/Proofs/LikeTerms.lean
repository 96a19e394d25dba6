import DecisionAlgebra.Proofs.WellFormed

/-!
# Collecting like terms

`groups` walks over the terms of a polynomial and keeps one normal monomial for each signature met.
`Sound` is the invariant of that walk: no signature twice, and each group filed under the signature
of its monomial. What `simplified` leaves of the groups is canonical: every monomial normal, no
exponent map twice, no zero coefficient unless a single zero stands for the empty sum.
-/

namespace DecisionAlgebra

variable {α : Type} {P : VariableId → Prop}

namespace Polynomial

/-! ## The groups -/

/-- No signature twice, and each group filed under the signature of its normal monomial. -/
structure Sound (gs : Groups α) : Prop where
  nodup : (gs.map (·.1)).Nodup
  signature_eq : ∀ g ∈ gs, g.2.signature = g.1
  normal : ∀ g ∈ gs, g.2.Normal

theorem sound_nil : Sound ([] : Groups α) := ⟨List.nodup_nil, nofun, nofun⟩

/-- A further term files nothing under a signature but its own. -/
theorem mem_keys_addTerm [Add α] {s t : List (VariableId × UInt32)} {m : Monomial α}
    {gs : Groups α} :
    t ∈ (addTerm s m gs).map (·.1) ↔ t = s ∨ t ∈ gs.map (·.1) := by
  induction gs with
  | nil => simp [addTerm]
  | cons g gs ih =>
    rw [addTerm]
    by_cases h : g.1 = s
    · rw [if_pos h, List.map_cons, List.map_cons, List.mem_cons, h]
      tauto
    · rw [if_neg h, List.map_cons, List.map_cons, List.mem_cons, List.mem_cons, ih]
      tauto

/-- A group is an old one, an old one with another coefficient, or new. -/
theorem mem_addTerm [Add α] {s : List (VariableId × UInt32)} {m : Monomial α} {gs : Groups α}
    {g : List (VariableId × UInt32) × Monomial α} (hg : g ∈ addTerm s m gs) :
    g = (s, m.normalized) ∨ ∃ h ∈ gs, g.1 = h.1 ∧ ∃ c, g.2 = h.2.withCoefficient c := by
  induction gs with
  | nil => exact .inl (List.mem_singleton.mp hg)
  | cons k gs ih =>
    rw [addTerm] at hg
    split at hg
    · rcases List.mem_cons.mp hg with rfl | hg'
      · exact .inr ⟨k, List.mem_cons_self, rfl, _, rfl⟩
      · exact .inr ⟨g, List.mem_cons_of_mem _ hg', rfl, g.2.coefficient, rfl⟩
    · rcases List.mem_cons.mp hg with rfl | hg'
      · exact .inr ⟨g, List.mem_cons_self, rfl, g.2.coefficient, rfl⟩
      · rcases ih hg' with h | ⟨h, hmem, hkey, hval⟩
        · exact .inl h
        · exact .inr ⟨h, List.mem_cons_of_mem _ hmem, hkey, hval⟩

theorem nodup_keys_addTerm [Add α] {s : List (VariableId × UInt32)} {m : Monomial α} {gs : Groups α}
    (hgs : (gs.map (·.1)).Nodup) : ((addTerm s m gs).map (·.1)).Nodup := by
  induction gs with
  | nil => simp [addTerm]
  | cons g gs ih =>
    rw [List.map_cons, List.nodup_cons] at hgs
    rw [addTerm]
    by_cases h : g.1 = s
    · rw [if_pos h, List.map_cons, List.nodup_cons]
      exact hgs
    · rw [if_neg h, List.map_cons, List.nodup_cons, mem_keys_addTerm]
      exact ⟨fun hmem => hmem.elim h hgs.1, ih hgs.2⟩

theorem Sound.addTerm [Add α] {gs : Groups α} (h : Sound gs) (m : Monomial α) :
    Sound (addTerm m.signature m gs) := by
  -- a changed group keeps its signature, which does not see the coefficient
  refine ⟨nodup_keys_addTerm h.nodup, fun g hg => ?_, fun g hg => ?_⟩
  · rcases mem_addTerm hg with rfl | ⟨k, hk, hkey, c, hval⟩
    · exact Monomial.signature_eq_iff.mpr m.exponentMap_normalized
    · rw [hkey, hval, ← h.signature_eq k hk]
      rfl
  · rcases mem_addTerm hg with rfl | ⟨k, hk, -, c, hval⟩
    · exact m.normal_normalized
    · rw [hval]
      exact (h.normal k hk).withCoefficient c

/-- What a further term preserves, a walk over all terms preserves. -/
theorem groups_induction [Add α] {I : Groups α → Prop} (hnil : I [])
    {ms : List (Monomial α)} (hstep : ∀ m ∈ ms, ∀ gs, I gs → I (addTerm m.signature m gs)) :
    I (groups ms) := by
  -- the walk forgets the terms behind it, but the step may use that they are terms of `ms`
  have h : ∀ (ns : List (Monomial α)), (∀ n ∈ ns, n ∈ ms) → ∀ gs, I gs →
      I (ns.foldl (fun gs m => addTerm m.signature m gs) gs) := by
    intro ns
    induction ns with
    | nil => intro _ gs hgs; exact hgs
    | cons n ns ih =>
      intro hns gs hgs
      exact ih (fun k hk => hns k (List.mem_cons_of_mem _ hk)) _
        (hstep n (hns n List.mem_cons_self) gs hgs)
  exact h ms (fun _ hn => hn) [] hnil

theorem sound_groups [Add α] (ms : List (Monomial α)) : Sound (groups ms) :=
  groups_induction sound_nil fun m _ _ h => h.addTerm m

theorem groups_append_singleton [Add α] (ms : List (Monomial α)) (m : Monomial α) :
    groups (ms ++ [m]) = addTerm m.signature m (groups ms) := by
  rw [groups, List.foldl_append]
  rfl

/-- Only the factors that are left of the terms in normal form count. -/
theorem factorsIn_groups [Add α] {ms : List (Monomial α)}
    (hms : ∀ m ∈ ms, m.normalized.FactorsIn P) : ∀ g ∈ groups ms, g.2.FactorsIn P := by
  refine groups_induction (I := fun gs => ∀ g ∈ gs, g.2.FactorsIn P) nofun
    fun m hm gs hgs g hg => ?_
  rcases mem_addTerm hg with rfl | ⟨k, hk, -, c, hval⟩
  · exact hms m hm
  · rw [hval]
    exact (hgs k hk).withCoefficient c

/-- A group has the factors of a term. -/
theorem exists_of_mem_groups [Add α] {ms : List (Monomial α)} :
    ∀ g ∈ groups ms, ∃ m ∈ ms, m.exponentMap = g.2.exponentMap := by
  refine groups_induction (I := fun gs => ∀ g ∈ gs, ∃ m ∈ ms, m.exponentMap = g.2.exponentMap) nofun
    fun m hm gs hgs g hg => ?_
  rcases mem_addTerm hg with rfl | ⟨k, hk, -, c, hval⟩
  · exact ⟨m, hm, m.exponentMap_normalized.symm⟩
  · rw [hval]
    exact hgs k hk

/-! ## What is kept of them -/

/-- The monomials of the groups that have not cancelled. -/
def kept [Zero α] [Add α] [BEq α] (ms : List (Monomial α)) : List (Monomial α) :=
  ((groups ms).map (·.2)).filter fun m => !(m.coefficient == 0)

theorem normal_of_mem_kept [Zero α] [Add α] [BEq α] {ms : List (Monomial α)} {m : Monomial α}
    (hm : m ∈ kept ms) : m.Normal := by
  obtain ⟨g, hg, rfl⟩ := List.mem_map.mp (List.mem_of_mem_filter hm)
  exact (sound_groups ms).normal g hg

theorem monomials_simplified [Zero α] [Add α] [BEq α] (p : Polynomial α) :
    kept p.monomials = [] ∧ p.simplified.monomials = [Monomial.constant 0] ∨
    kept p.monomials ≠ [] ∧ p.simplified.monomials = kept p.monomials := by
  unfold simplified
  split
  next h => exact .inl ⟨h, rfl⟩
  next h => exact .inr ⟨h, rfl⟩

theorem simplified_of_kept_nil [Zero α] [Add α] [BEq α] {p : Polynomial α}
    (h : kept p.monomials = []) : p.simplified = ⟨[Monomial.constant 0]⟩ := by
  rcases monomials_simplified p with ⟨-, hzero⟩ | ⟨hne, -⟩
  · exact congrArg mk hzero
  · exact absurd h hne

theorem simplified_of_kept_ne_nil [Zero α] [Add α] [BEq α] {p : Polynomial α}
    (h : kept p.monomials ≠ []) : p.simplified = ⟨kept p.monomials⟩ := by
  rcases monomials_simplified p with ⟨hnil, -⟩ | ⟨-, hkept⟩
  · exact absurd hnil h
  · exact congrArg mk hkept

/-- What simplifying leaves has the factors of a term, unless it is the zero that is put in. -/
theorem mem_simplified [Zero α] [Add α] [BEq α] {p : Polynomial α} {m : Monomial α}
    (hm : m ∈ p.simplified.monomials) :
    m = Monomial.constant 0 ∨ m.Normal ∧ ∃ n ∈ p.monomials, n.exponentMap = m.exponentMap := by
  rcases monomials_simplified p with ⟨-, h⟩ | ⟨-, h⟩
  · exact .inl (List.mem_singleton.mp (h ▸ hm))
  · rw [h] at hm
    obtain ⟨g, hg, rfl⟩ := List.mem_map.mp (List.mem_of_mem_filter hm)
    exact .inr ⟨normal_of_mem_kept hm, exists_of_mem_groups g hg⟩

theorem termsIn_simplified [Zero α] [Add α] [BEq α] {p : Polynomial α}
    (hp : ∀ m ∈ p.monomials, m.normalized.FactorsIn P) : TermsIn P p.simplified.monomials := by
  rcases monomials_simplified p with ⟨-, h⟩ | ⟨hne, h⟩
  · rw [h]
    exact .singleton (Monomial.factorsIn_constant 0)
  · rw [h]
    refine ⟨hne, fun m hm => ?_⟩
    obtain ⟨g, hg, rfl⟩ := List.mem_map.mp (List.mem_filter.mp hm).1
    exact factorsIn_groups hp g hg

theorem mem_withoutConstant [Zero α] {p : Polynomial α} {m : Monomial α}
    (h : m ∈ p.withoutConstant.monomials) :
    m ∈ p.monomials ∧ 0 < m.degree ∨ m = Monomial.constant 0 := by
  unfold withoutConstant at h
  split at h
  next => exact .inr (List.mem_singleton.mp h)
  next =>
    obtain ⟨hmem, hpos⟩ := List.mem_filter.mp h
    exact .inl ⟨hmem, by simpa using hpos⟩

/-- Where no term has a positive degree, a single zero is left. -/
theorem termsIn_withoutConstant [Zero α] {p : Polynomial α}
    (hp : ∀ m ∈ p.monomials, m.FactorsIn P) : TermsIn P p.withoutConstant.monomials := by
  refine ⟨?_, fun m hm => ?_⟩
  · unfold withoutConstant
    split
    next => exact List.cons_ne_nil _ _
    next hne => exact hne
  · rcases mem_withoutConstant hm with ⟨hmem, -⟩ | rfl
    · exact hp m hmem
    · exact Monomial.factorsIn_constant 0

/-- Terms in normal form: each written without repetition, no two alike, and none zero unless a
single zero stands for the empty sum. -/
structure Canonical [Zero α] (ms : List (Monomial α)) : Prop where
  normal : ∀ m ∈ ms, m.Normal
  apart : ms.Pairwise fun a b => a.exponentMap ≠ b.exponentMap
  nonzero : (∀ m ∈ ms, m.coefficient ≠ 0) ∨ ms = [Monomial.constant 0]

theorem Sound.apart {gs : Groups α} (h : Sound gs) :
    (gs.map (·.2)).Pairwise fun a b => a.exponentMap ≠ b.exponentMap := by
  rw [List.pairwise_map]
  refine (List.pairwise_map.mp h.nodup).imp_of_mem fun {g k} hg hk hne heq => hne ?_
  rw [← h.signature_eq g hg, ← h.signature_eq k hk]
  exact Monomial.signature_eq_iff.mpr heq

theorem canonical_zero [Zero α] : Canonical [(Monomial.constant 0 : Monomial α)] where
  normal m hm := by
    rw [List.mem_singleton.mp hm]
    exact ⟨rfl, List.nodup_nil, nofun⟩
  apart := List.pairwise_singleton _ _
  nonzero := .inr rfl

/-- **Simplifying brings a polynomial into normal form.** -/
theorem canonical_simplified [Zero α] [Add α] [BEq α] [LawfulBEq α] (p : Polynomial α) :
    Canonical p.simplified.monomials := by
  have hsound := sound_groups p.monomials
  rcases monomials_simplified p with ⟨-, h⟩ | ⟨-, h⟩
  · rw [h]
    exact canonical_zero
  · rw [h]
    refine ⟨fun m => normal_of_mem_kept, hsound.apart.sublist List.filter_sublist,
      .inl fun m hm => ?_⟩
    simpa using (List.mem_filter.mp hm).2

/-! ## Terms in normal form -/

theorem addTerm_of_notMem [Add α] {s : List (VariableId × UInt32)} {m : Monomial α} {gs : Groups α}
    (h : s ∉ gs.map (·.1)) : addTerm s m gs = gs ++ [(s, m.normalized)] := by
  induction gs with
  | nil => rfl
  | cons g gs ih =>
    rw [List.map_cons, List.mem_cons, not_or] at h
    rw [addTerm, if_neg (Ne.symm h.1), ih h.2, List.cons_append]

/-- Terms in normal form, no two alike, are a group each. -/
theorem groups_of_apart [Add α] {ms : List (Monomial α)} (hnormal : ∀ m ∈ ms, m.Normal)
    (hapart : ms.Pairwise fun a b => a.exponentMap ≠ b.exponentMap) :
    groups ms = ms.map fun m => (m.signature, m) := by
  -- the walk adds at the end, so the induction is on the last term
  induction ms using List.reverseRecOn with
  | nil => rfl
  | append_singleton ms m ih =>
    obtain ⟨hms, -, hlast⟩ := List.pairwise_append.mp hapart
    have hnew : m.signature ∉ (ms.map fun m => (m.signature, m)).map (·.1) := by
      rw [List.map_map]
      intro hmem
      obtain ⟨n, hn, hsignature⟩ := List.mem_map.mp hmem
      exact hlast n hn m List.mem_cons_self (Monomial.signature_eq_iff.mp hsignature)
    rw [groups_append_singleton, ih (fun n hn => hnormal n (List.mem_append_left _ hn)) hms,
      addTerm_of_notMem hnew,
      (hnormal m (List.mem_append_right _ List.mem_cons_self)).normalized_eq, List.map_append]
    rfl

/-- Terms in normal form, no two alike, are only looked through for zeros. -/
theorem kept_of_apart [Zero α] [Add α] [BEq α] {ms : List (Monomial α)}
    (hnormal : ∀ m ∈ ms, m.Normal)
    (hapart : ms.Pairwise fun a b => a.exponentMap ≠ b.exponentMap) :
    kept ms = ms.filter fun m => !(m.coefficient == 0) := by
  rw [kept, groups_of_apart hnormal hapart, List.map_map]
  exact congrArg (List.filter _) (List.map_id _)

/-- **A polynomial in normal form stays as it is when it is simplified.** -/
theorem Canonical.simplified_eq [Zero α] [Add α] [BEq α] [LawfulBEq α] {p : Polynomial α}
    (hp : Canonical p.monomials) (hne : p.monomials ≠ []) : p.simplified = p := by
  have hkept := kept_of_apart hp.normal hp.apart
  rcases hp.nonzero with hnonzero | hzero
  · have hall : p.monomials.filter (fun m => !(m.coefficient == 0)) = p.monomials :=
      List.filter_eq_self.mpr fun m hm => by simpa using hnonzero m hm
    have hself : kept p.monomials = p.monomials := hkept.trans hall
    have hkeep : kept p.monomials ≠ [] := fun hnil => hne (hself.symm.trans hnil)
    rw [simplified_of_kept_ne_nil hkeep, hself]
  · -- a single zero is left out and put back
    have hnone : kept p.monomials = [] := by
      rw [hkept, hzero, List.filter_cons_of_neg (by simp [Monomial.constant]), List.filter_nil]
    rw [simplified_of_kept_nil hnone, ← hzero]

/-! ## Constant terms -/

theorem withoutConstant_congr [Zero α] {p q : Polynomial α}
    (h : p.monomials.filter (0 < ·.degree) = q.monomials.filter (0 < ·.degree)) :
    p.withoutConstant = q.withoutConstant := by
  rw [withoutConstant, withoutConstant, h]

theorem filter_withoutConstant [Zero α] (p : Polynomial α) :
    p.withoutConstant.monomials.filter (0 < ·.degree) =
      p.monomials.filter (0 < ·.degree) := by
  unfold withoutConstant
  split
  next hnil => exact hnil.symm
  next => rw [List.filter_filter]; simp

/-- There is no constant term left to leave out. -/
theorem withoutConstant_withoutConstant [Zero α] (p : Polynomial α) :
    p.withoutConstant.withoutConstant = p.withoutConstant :=
  withoutConstant_congr p.filter_withoutConstant

theorem Canonical.withoutConstant [Zero α] {p : Polynomial α} (hp : Canonical p.monomials) :
    Canonical p.withoutConstant.monomials := by
  unfold Polynomial.withoutConstant
  split
  next => exact canonical_zero
  next hne =>
    refine ⟨fun m hm => hp.normal m (List.mem_of_mem_filter hm),
      hp.apart.sublist List.filter_sublist, .inl fun m hm => ?_⟩
    rcases hp.nonzero with h | h
    · exact h m (List.mem_of_mem_filter hm)
    · rw [h] at hm
      exact absurd hm List.not_mem_nil

/-- What simplifying leaves of the terms of positive degree. -/
theorem filter_simplified [Zero α] [Add α] [BEq α] (p : Polynomial α) :
    p.simplified.monomials.filter (0 < ·.degree) =
      (kept p.monomials).filter (0 < ·.degree) := by
  rcases monomials_simplified p with ⟨hnil, h⟩ | ⟨-, h⟩
  · rw [h, hnil]
    rfl
  · rw [h]

/-- A number among the terms ends in the group without factors, which has degree zero. -/
theorem filter_addTerm_constant [Add α] {f : Monomial α → Bool} (c : α) {gs : Groups α}
    (hgs : ∀ g ∈ gs, g.1 = [] → g.2.degree = 0) :
    ((addTerm [] (Monomial.constant c) gs).map (·.2)).filter (fun m => 0 < m.degree && f m) =
      (gs.map (·.2)).filter (fun m => 0 < m.degree && f m) := by
  induction gs with
  | nil => rfl
  | cons g gs ih =>
    rw [addTerm]
    by_cases h : g.1 = []
    · have hzero := hgs g List.mem_cons_self h
      rw [if_pos h, List.map_cons, List.map_cons, List.filter_cons_of_neg,
        List.filter_cons_of_neg]
      · simp [hzero]
      · show ¬(decide (0 < g.2.degree) && _) = true
        simp [hzero]
    · rw [if_neg h, List.map_cons, List.map_cons, List.filter_cons, List.filter_cons,
        ih fun k hk => hgs k (List.mem_cons_of_mem _ hk)]

/-- **A number added to a sum does not change its terms of positive degree.** -/
theorem withoutConstant_simplified_append [Zero α] [Add α] [BEq α] (ms : List (Monomial α))
    (c : α) :
    (simplified ⟨ms ++ [Monomial.constant c]⟩).withoutConstant =
      (simplified ⟨ms⟩).withoutConstant := by
  have hdegree : ∀ g ∈ groups ms, g.1 = [] → g.2.degree = 0 := by
    intro g hg hnil
    have hsound := sound_groups ms
    have hsignature : g.2.signature = (Monomial.constant c).signature :=
      (hsound.signature_eq g hg).trans hnil
    rw [Monomial.degree_eq (hsound.normal g hg).length_eq,
      Monomial.signature_eq_iff.mp hsignature, Monomial.exponentMap_constant, map_zero]
  refine withoutConstant_congr ?_
  rw [filter_simplified, filter_simplified, kept, kept, groups_append_singleton,
    List.filter_filter, List.filter_filter]
  exact filter_addTerm_constant c hdegree

end Polynomial

/-- What is left of the terms in normal form is what is left of the scalar. -/
theorem Scalar.factorsIn_simplified [Zero α] [One α] [Add α] [BEq α] {s : Scalar α}
    (hs : ∀ m ∈ s.toMonomials, m.normalized.FactorsIn P) : s.simplified.FactorsIn P := by
  cases s with
  | constant c => exact factorsIn_constant c
  | «variable» v => exact .singleton (hs _ List.mem_cons_self)
  | monomial m => exact .singleton (hs m List.mem_cons_self)
  | polynomial p => exact Polynomial.termsIn_simplified hs

theorem Scalar.FactorsIn.simplified [Zero α] [One α] [Add α] [BEq α] {s : Scalar α}
    (hs : s.FactorsIn P) : s.simplified.FactorsIn P :=
  Scalar.factorsIn_simplified fun m hm => (hs.each m hm).normalized

end DecisionAlgebra
