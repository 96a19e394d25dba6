import DecisionAlgebra.Polynomial
import DecisionAlgebra.Proofs.Linear.Coefficients

/-!
# Values found by the place of their keys

Merging factors and collecting like terms keep every value beside its key, and a row of coefficients
is changed where the ordering has the variable. The same can be done on parallel lists: the place of
the key is looked up in one list, and the value is read and written at that place of the other. Such
a walk could leave the other list. It never does, because the lists stay equally long, and it gives
the same result.
-/

namespace DecisionAlgebra

variable {α β κ σ τ : Type}

/-! ## Parallel lists -/

/-- Change the value beside the first key that is the right one, or put a new key with its value
last. -/
def upsert (isKey : κ → Bool) (change : β → β) (key : κ) (value : β) : List (κ × β) → List (κ × β)
  | [] => [(key, value)]
  | g :: gs =>
    if isKey g.1 then (g.1, change g.2) :: gs else g :: upsert isKey change key value gs

/-- The same on parallel lists of keys and values; there is no answer when the place of the key is
outside of the values. -/
def upsertAt? (isKey : κ → Bool) (change : β → β) (key : κ) (value : β) (keys : List κ)
    (values : List β) : Option (List κ × List β) :=
  match keys.findIdx? isKey with
  | some i => values[i]?.map fun b => (keys, values.set i (change b))
  | none => some (keys ++ [key], values ++ [value])

theorem upsertAt?_eq (isKey : κ → Bool) (change : β → β) (key : κ) (value : β)
    (gs : List (κ × β)) :
    upsertAt? isKey change key value (gs.map (·.1)) (gs.map (·.2)) =
      some ((upsert isKey change key value gs).map (·.1),
        (upsert isKey change key value gs).map (·.2)) := by
  induction gs with
  | nil => rfl
  | cons g gs ih =>
    unfold upsertAt? at ih ⊢
    rw [List.map_cons, List.map_cons, List.findIdx?_cons, upsert]
    by_cases hg : isKey g.1 = true
    · rw [if_pos hg, if_pos hg]
      rfl
    · rw [if_neg hg, if_neg hg]
      -- the key is sought among the others, one place further on
      cases hplace : (gs.map (·.1)).findIdx? isKey with
      | none =>
        rw [hplace] at ih
        simpa using ih
      | some i =>
        rw [hplace] at ih
        obtain ⟨b, hb, hset⟩ := Option.map_eq_some_iff.mp ih
        obtain ⟨hkeys, hvalues⟩ := Prod.mk.inj hset
        rw [Option.map_some, List.map_cons, List.map_cons, ← hkeys, ← hvalues]
        simp only [List.getElem?_cons_succ, hb, Option.map_some, List.set_cons_succ]

/-- A walk whose every step finds its answer finds the answer of the walk. -/
theorem foldlM_eq_some {f : σ → α → Option σ} {g : τ → α → τ} {r : τ → σ}
    (h : ∀ t a, f (r t) a = some (r (g t a))) (xs : List α) :
    ∀ t, xs.foldlM f (r t) = some (r (xs.foldl g t)) := by
  induction xs with
  | nil => intro t; rfl
  | cons x xs ih =>
    intro t
    rw [List.foldlM_cons, h]
    exact ih (g t x)

/-! ## Factors -/

namespace Monomial

theorem addFactor_eq_upsert (f : Variable α × UInt32) (fs : List (Variable α × UInt32)) :
    addFactor f fs = upsert (· == f.1) (· + f.2) f.1 f.2 fs := by
  induction fs with
  | nil => rfl
  | cons g fs ih => rw [addFactor, upsert, ih]

theorem timesFactor_eq_upsertAt? (m : Monomial α) (f : Variable α × UInt32) :
    m.timesFactor f = (upsertAt? (· == f.1) (· + f.2) f.1 f.2 m.vars m.exponents).map
      fun fs => ⟨m.coefficient, fs.1, fs.2⟩ := by
  unfold timesFactor upsertAt?
  cases m.vars.findIdx? (· == f.1) with
  | none => rfl
  | some i =>
    simp only [Option.map_map]
    rfl

/-- Factors are merged by the places of their variables. -/
theorem foldlM_timesFactor (m : Monomial α) :
    m.factors.foldlM timesFactor (constant m.coefficient) =
      some (ofFactors m.coefficient m.mergedFactors) := by
  refine foldlM_eq_some (r := ofFactors m.coefficient) (fun fs f => ?_) m.factors []
  rw [timesFactor_eq_upsertAt?, addFactor_eq_upsert]
  simp only [ofFactors, upsertAt?_eq, Option.map_some]

end Monomial

/-! ## Like terms -/

namespace Polynomial

variable [Add α]

/-- Add a monomial to the one at the place of its signature, or put both last. -/
def addTermAt? (gs : List (List (VariableId × UInt32)) × List (Monomial α)) (m : Monomial α) :
    Option (List (List (VariableId × UInt32)) × List (Monomial α)) :=
  upsertAt? (· = m.signature) (fun g => g.withCoefficient (g.coefficient + m.coefficient))
    m.signature m.normalized gs.1 gs.2

theorem addTerm_eq_upsert (s : List (VariableId × UInt32)) (m : Monomial α) (gs : Groups α) :
    addTerm s m gs = upsert (· = s) (fun g => g.withCoefficient (g.coefficient + m.coefficient))
      s m.normalized gs := by
  induction gs with
  | nil => rfl
  | cons g gs ih => simp only [addTerm, upsert, ih, decide_eq_true_eq]

/-- Like terms are collected by the places of their signatures. -/
theorem foldlM_addTermAt? (ms : List (Monomial α)) :
    ms.foldlM addTermAt? ([], []) = some ((groups ms).map (·.1), (groups ms).map (·.2)) := by
  refine foldlM_eq_some (r := fun gs : Groups α => (gs.map (·.1), gs.map (·.2)))
    (fun gs m => ?_) ms []
  rw [addTermAt?, upsertAt?_eq, addTerm_eq_upsert]

end Polynomial

/-! ## Rows of coefficients -/

/-- Read the entry at the place of the variable and write it back with the coefficient added. -/
def addCoefficientAt [Add α] (ordering : List (Variable α)) (row : List α) (m : Monomial α) :
    Attempt Error (List α) :=
  match m.linearVariable with
  | none => .ok row
  | some v =>
    match ordering.findIdx? (· == v) with
    | some i => do
      let c ← Attempt.read row[i]?
      return row.set i (c + m.coefficient)
    | none => Attempt.refuse (.notInOrdering v.id)

theorem addCoefficientAt_eq [Add α] {ordering : List (Variable α)} {row : List α}
    (h : row.length = ordering.length) (m : Monomial α) :
    addCoefficientAt ordering row m = Attempt.checked (addCoefficient ordering row m) := by
  unfold addCoefficientAt addCoefficient
  cases m.linearVariable with
  | none => rfl
  | some v =>
    dsimp only
    cases hplace : ordering.findIdx? (· == v) with
    | none => rfl
    | some i =>
      obtain ⟨hlt, -, -⟩ := List.findIdx?_eq_some_iff_getElem.mp hplace
      have hget : row[i]? = some row[i] := List.getElem?_eq_getElem (h ▸ hlt)
      simp only [List.modify_eq_set_getElem?, hget]
      rfl

/-- A row is filled by the places of the variables in the ordering. -/
theorem foldlM_addCoefficientAt [Zero α] [Add α] (ms : List (Monomial α))
    (ordering : List (Variable α)) :
    ms.foldlM (addCoefficientAt ordering) (List.replicate ordering.length 0) =
      Attempt.checked (coefficientRow ms ordering) := by
  have hfold : ∀ row : List α, row.length = ordering.length →
      ms.foldlM (addCoefficientAt ordering) row =
        Attempt.checked (ms.foldlM (addCoefficient ordering) row) := by
    induction ms with
    | nil => intro row _; rfl
    | cons m ms ih =>
      intro row hlen
      rw [List.foldlM_cons, List.foldlM_cons, addCoefficientAt_eq hlen]
      cases hstep : addCoefficient ordering row m with
      | error e => rfl
      | ok next => exact ih next ((length_of_addCoefficient hstep).trans hlen)
  exact hfold _ List.length_replicate

end DecisionAlgebra
