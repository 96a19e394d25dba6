import DecisionAlgebra.Expression
import DecisionAlgebra.Proofs.ExactTotals

/-!
# Which variables occur

A variable occurs where its exact total exponent is positive. The lists of occurring variables name
each such identifier once. The stored variables are more: also those that are written with exponent
zero, which evaluation asks for as well.
-/

namespace DecisionAlgebra

variable {α : Type}

/-! ## Every variable once -/

namespace Variable

theorem mem_ids_distinctFrom {id : VariableId} (vs : List (Variable α)) :
    ∀ seen : List VariableId,
      id ∈ (distinctFrom seen vs).map (·.id) ↔ id ∉ seen ∧ id ∈ vs.map (·.id) := by
  induction vs with
  | nil => intro seen; simp [distinctFrom]
  | cons v vs ih =>
    intro seen
    rw [distinctFrom]
    by_cases hv : v.id ∈ seen
    · -- left out: whoever has this identifier was seen before
      rw [if_pos hv, ih, List.map_cons, List.mem_cons]
      constructor
      · intro h
        exact ⟨h.1, .inr h.2⟩
      · intro h
        refine ⟨h.1, h.2.resolve_left fun hid => h.1 (hid ▸ hv)⟩
    · rw [if_neg hv, List.map_cons, List.mem_cons, ih, List.map_cons, List.mem_cons, List.mem_cons]
      constructor
      · intro h
        rcases h with rfl | ⟨hseen, hmem⟩
        · exact ⟨hv, .inl rfl⟩
        · exact ⟨fun hs => hseen (.inr hs), .inr hmem⟩
      · intro h
        by_cases hid : id = v.id
        · exact .inl hid
        · exact .inr ⟨fun hs => hs.elim hid h.1, h.2.resolve_left hid⟩

theorem nodup_ids_distinctFrom (vs : List (Variable α)) :
    ∀ seen : List VariableId, ((distinctFrom seen vs).map (·.id)).Nodup := by
  induction vs with
  | nil => intro seen; exact List.nodup_nil
  | cons v vs ih =>
    intro seen
    rw [distinctFrom]
    by_cases hv : v.id ∈ seen
    · rw [if_pos hv]
      exact ih seen
    · rw [if_neg hv, List.map_cons, List.nodup_cons, mem_ids_distinctFrom]
      exact ⟨fun h => h.1 List.mem_cons_self, ih _⟩

@[simp] theorem mem_ids_distinct {id : VariableId} {vs : List (Variable α)} :
    id ∈ (distinct vs).map (·.id) ↔ id ∈ vs.map (·.id) := by
  rw [distinct, mem_ids_distinctFrom]
  exact and_iff_right List.not_mem_nil

theorem nodup_ids_distinct (vs : List (Variable α)) : ((distinct vs).map (·.id)).Nodup :=
  nodup_ids_distinctFrom vs []

theorem mem_ids_flatMap {β : Type} {id : VariableId} {xs : List β} {f : β → List (Variable α)} :
    id ∈ (xs.flatMap f).map (·.id) ↔ ∃ x ∈ xs, id ∈ (f x).map (·.id) := by
  rw [List.map_flatMap, List.mem_flatMap]

end Variable

/-! ## Occurring variables -/

theorem Monomial.mem_ids_occurring {m : Monomial α} {id : VariableId} :
    id ∈ m.occurring.map (·.id) ↔ 0 < m.exactMap id := by
  rw [occurring, Variable.mem_ids_distinct, List.map_map, List.mem_map]
  constructor
  · intro h
    obtain ⟨f, hf, rfl⟩ := h
    obtain ⟨hmem, hpos⟩ := List.mem_filter.mp hf
    have hpos' : 0 < f.2 := by simpa using hpos
    exact (UInt32.lt_iff_toNat_lt.mp hpos').trans_le (le_exactSum_of_mem hmem)
  · intro h
    obtain ⟨f, hf, hid, hpos⟩ := exists_mem_of_exactSum_pos h
    exact ⟨f, List.mem_filter.mpr ⟨hf, by simpa using hpos⟩, hid⟩

theorem Polynomial.mem_ids_occurring {p : Polynomial α} {id : VariableId} :
    id ∈ p.occurring.map (·.id) ↔ ∃ m ∈ p.monomials, 0 < m.exactMap id := by
  rw [occurring, Variable.mem_ids_distinct, Variable.mem_ids_flatMap]
  exact exists_congr fun m => and_congr_right fun _ => Monomial.mem_ids_occurring

theorem Scalar.mem_ids_occurring [One α] {s : Scalar α} {id : VariableId} :
    id ∈ s.occurring.map (·.id) ↔ ∃ m ∈ s.toMonomials, 0 < m.exactMap id := by
  cases s with
  | constant c => simp [occurring, toMonomials]
  | «variable» v =>
    rw [occurring, toMonomials, List.map_singleton, List.mem_singleton]
    by_cases h : id = v.id
    · simp [h]
    · simp [h, Finsupp.single_eq_of_ne h]
  | monomial m => simpa [occurring, toMonomials] using Monomial.mem_ids_occurring
  | polynomial p => exact Polynomial.mem_ids_occurring

theorem Expression.mem_ids_occurring {e : Expression α} {id : VariableId} :
    id ∈ e.occurring.map (·.id) ↔ ∃ s ∈ e.elements, id ∈ s.occurring.map (·.id) := by
  rw [occurring, Variable.mem_ids_distinct, Variable.mem_ids_flatMap]

/-- The monomials of all elements, row after row. -/
def Expression.terms [One α] (e : Expression α) : List (Monomial α) :=
  e.elements.flatMap Scalar.toMonomials

/-! ## Stored variables -/

/-- The variables of the factors as written. -/
def Scalar.stored [One α] (s : Scalar α) : List (Variable α) := s.toMonomials.flatMap (·.vars)

/-- The variables of the factors of all elements as written. -/
def Expression.stored [One α] (e : Expression α) : List (Variable α) :=
  e.elements.flatMap Scalar.stored

end DecisionAlgebra
