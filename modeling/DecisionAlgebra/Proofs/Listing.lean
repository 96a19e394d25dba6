import DecisionAlgebra.Constraint.Basic
import DecisionAlgebra.Proofs.Families

/-!
# Variables in the order of their first places

The occurring variables are listed level by level. A monomial leaves out its later factors with a
variable that it has listed, a polynomial the later variables of its monomials, an expression those
of its elements, a constraint those of its right side. Leaving out at one level what the next one
would leave out anyway changes nothing, so every such list is that of a single pass over everything
written below: over the elements by rows, their monomials, and the factors of these that have a
positive exponent.

Only those factors count for the order. In `x^0 y x` the first place of `x` is the last one, so `y`
is listed first.
-/

namespace DecisionAlgebra

variable {α β : Type}

/-! ## First places -/

namespace Variable

/-- `vs` are variables of a scan, each as the scan meets it first, in the order in which it does. -/
structure InFirstPlaces (scan vs : List (Variable α)) : Prop where
  find?_eq : ∀ v ∈ vs, scan.find? (· == v) = some v
  ascending : vs.Pairwise fun v w => scan.findIdx (· == v) < scan.findIdx (· == w)

/-- What is left after the identifiers seen before has none of them. -/
theorem notMem_seen {seen : List VariableId} {vs : List (Variable α)} {v : Variable α}
    (hv : v ∈ distinctFrom seen vs) : v.id ∉ seen :=
  ((mem_ids_distinctFrom vs seen).mp (List.mem_map_of_mem hv)).1

/-- A variable with another identifier goes by. -/
theorem cons_beq_eq_false {seen : List VariableId} {v w : Variable α} {vs : List (Variable α)}
    (hw : w.id ∈ seen) (hv : v ∈ distinctFrom seen vs) : (w == v) = false :=
  beq_eq_false_iff.mpr fun hid => notMem_seen hv (hid ▸ hw)

theorem inFirstPlaces_distinctFrom (vs : List (Variable α)) :
    ∀ seen : List VariableId, InFirstPlaces vs (distinctFrom seen vs) := by
  induction vs with
  | nil => intro seen; exact ⟨nofun, .nil⟩
  | cons w vs ih =>
    intro seen
    -- in front of variables that all differ from it, the head moves every first place by one
    have hmoved : ∀ {seen : List VariableId}, w.id ∈ seen →
        InFirstPlaces (w :: vs) (distinctFrom seen vs) := by
      intro seen hw
      refine ⟨fun v hv => ?_, (ih seen).ascending.imp_of_mem fun {u v} hu hv huv => ?_⟩
      · rw [List.find?_cons_of_neg (by rw [cons_beq_eq_false hw hv]; exact Bool.false_ne_true)]
        exact (ih seen).find?_eq v hv
      · rw [List.findIdx_cons, List.findIdx_cons, cons_beq_eq_false hw hu,
          cons_beq_eq_false hw hv]
        exact Nat.succ_lt_succ huv
    rw [distinctFrom]
    by_cases hw : w.id ∈ seen
    · rw [if_pos hw]
      exact hmoved hw
    · rw [if_neg hw]
      have htail : InFirstPlaces (w :: vs) (distinctFrom (w.id :: seen) vs) :=
        hmoved List.mem_cons_self
      refine ⟨List.forall_mem_cons.mpr ⟨?_, htail.find?_eq⟩,
        List.pairwise_cons.mpr ⟨fun v hv => ?_, htail.ascending⟩⟩
      · exact List.find?_cons_of_pos (beq_iff.mpr rfl)
      · rw [List.findIdx_cons, List.findIdx_cons, beq_iff.mpr rfl,
          cons_beq_eq_false List.mem_cons_self hv]
        exact Nat.succ_pos _

/-- Distinct variables stand in the order of their first places. -/
theorem inFirstPlaces_distinct (vs : List (Variable α)) : InFirstPlaces vs (distinct vs) :=
  inFirstPlaces_distinctFrom vs []

/-- So do some of them. -/
theorem InFirstPlaces.sublist {scan vs ws : List (Variable α)} (h : InFirstPlaces scan vs)
    (hws : ws.Sublist vs) : InFirstPlaces scan ws :=
  ⟨fun v hv => h.find?_eq v (hws.subset hv), h.ascending.sublist hws⟩

/-! ## One pass -/

/-- What the first part of a list has shown is seen in the second. -/
theorem distinctFrom_append (vs ws : List (Variable α)) :
    ∀ seen : List VariableId, distinctFrom seen (vs ++ ws) =
      distinctFrom seen vs ++ distinctFrom (vs.map (·.id) ++ seen) ws := by
  induction vs with
  | nil => intro seen; rfl
  | cons v vs ih =>
    intro seen
    rw [List.cons_append, distinctFrom, distinctFrom, ih, ih, List.map_cons, List.cons_append]
    by_cases hv : v.id ∈ seen
    · rw [if_pos hv, if_pos hv]
      refine congrArg (distinctFrom seen vs ++ ·) (distinctFrom_congr ws fun id => ?_)
      simp only [List.mem_cons, List.mem_append]
      exact ⟨.inr, fun h => h.elim (fun hid => .inr (hid ▸ hv)) fun h => h⟩
    · rw [if_neg hv, if_neg hv, List.cons_append]
      refine congrArg (fun us => v :: (distinctFrom (v.id :: seen) vs ++ us))
        (distinctFrom_congr ws fun id => ?_)
      simp only [List.mem_cons, List.mem_append]
      exact or_left_comm

/-- Nothing is lost when variables that have been seen are left out twice. -/
theorem distinctFrom_distinctFrom (vs : List (Variable α)) :
    ∀ {s t : List VariableId}, s ⊆ t → distinctFrom t (distinctFrom s vs) = distinctFrom t vs := by
  induction vs with
  | nil => intro s t _; rfl
  | cons v vs ih =>
    intro s t hst
    rw [distinctFrom]
    by_cases hs : v.id ∈ s
    · rw [if_pos hs, ih hst, distinctFrom, if_pos (hst hs)]
    · rw [if_neg hs, distinctFrom, distinctFrom]
      by_cases ht : v.id ∈ t
      · rw [if_pos ht, if_pos ht, ih (List.cons_subset.mpr ⟨ht, hst⟩)]
      · rw [if_neg ht, if_neg ht, ih (List.cons_subset_cons v.id hst)]

/-- Variables that are distinct within each part of a list are as good as all of them. -/
theorem distinctFrom_flatMap_distinct (f : β → List (Variable α)) (xs : List β) :
    ∀ seen : List VariableId, distinctFrom seen (xs.flatMap fun x => distinct (f x)) =
      distinctFrom seen (xs.flatMap f) := by
  induction xs with
  | nil => intro seen; rfl
  | cons x xs ih =>
    intro seen
    rw [List.flatMap_cons, List.flatMap_cons, distinctFrom_append, distinctFrom_append, ih]
    refine congrArg₂ (· ++ ·) (distinctFrom_distinctFrom (f x) (List.nil_subset seen))
      (distinctFrom_congr _ fun id => ?_)
    simp only [List.mem_append, mem_ids_distinct]

/-- **One pass is enough.** -/
theorem distinct_flatMap_distinct (f : β → List (Variable α)) (xs : List β) :
    distinct (xs.flatMap fun x => distinct (f x)) = distinct (xs.flatMap f) :=
  distinctFrom_flatMap_distinct f xs []

/-- Two lists are two parts. -/
theorem distinct_append_distinct (vs ws : List (Variable α)) :
    distinct (distinct vs ++ distinct ws) = distinct (vs ++ ws) := by
  simpa using distinct_flatMap_distinct (fun us => us) [vs, ws]

end Variable

/-! ## Everything written -/

/-- The variables of the factors with positive exponents, monomial after monomial. -/
def written (ms : List (Monomial α)) : List (Variable α) :=
  ms.flatMap fun m => (m.factors.filter (0 < ·.2)).map (·.1)

theorem mem_ids_written {ms : List (Monomial α)} {id : VariableId} :
    id ∈ (written ms).map (·.id) ↔ ∃ m ∈ ms, 0 < m.exactMap id := by
  rw [written, Variable.mem_ids_flatMap]
  refine exists_congr fun m => and_congr_right fun _ => ?_
  rw [← Monomial.mem_ids_occurring, Monomial.occurring, Variable.mem_ids_distinct]

theorem written_append (ms ns : List (Monomial α)) :
    written (ms ++ ns) = written ms ++ written ns :=
  List.flatMap_append

theorem Monomial.occurring_eq (m : Monomial α) : m.occurring = Variable.distinct (written [m]) := by
  rw [written, List.flatMap_singleton]
  rfl

theorem Polynomial.occurring_eq (p : Polynomial α) :
    p.occurring = Variable.distinct (written p.monomials) :=
  Variable.distinct_flatMap_distinct _ p.monomials

theorem Scalar.occurring_eq [One α] (s : Scalar α) :
    s.occurring = Variable.distinct (written s.toMonomials) := by
  cases s with
  | constant c => rfl
  | «variable» v => rfl
  | monomial m => exact m.occurring_eq
  | polynomial p => exact p.occurring_eq

theorem Expression.occurring_eq [One α] (e : Expression α) :
    e.occurring = Variable.distinct (written e.terms) := by
  have helements : Scalar.occurring = fun s : Scalar α =>
      Variable.distinct (written s.toMonomials) := funext Scalar.occurring_eq
  rw [occurring, helements, Variable.distinct_flatMap_distinct, terms, written, List.flatMap_assoc]
  rfl

theorem Constraint.occurring_eq [One α] (c : Constraint α) :
    c.occurring = Variable.distinct (written (c.left.terms ++ c.right.terms)) := by
  have hsides : c.occurring = Variable.distinct (c.left.occurring ++ c.right.occurring) := by
    cases c with
    | scalar c =>
      show c.occurring = _
      simp only [ScalarConstraint.occurring, left, right, Expression.occurring,
        Expression.elements, List.flatMap_singleton, Variable.distinct_append_distinct]
    | vector c => rfl
    | matrix c => rfl
  rw [hsides, Expression.occurring_eq, Expression.occurring_eq, Variable.distinct_append_distinct,
    written_append]

/-! ## The lists -/

/-- `vs` is the list of the variables of monomials: no identifier is there twice, exactly those with
a positive exact total in a monomial are there, and they stand in the order of their first factors
with a positive exponent, as they are written there. Where the totals fit in a word, the exact total
is positive where the total exponent is. -/
structure ListsVariables (ms : List (Monomial α)) (vs : List (Variable α)) : Prop where
  nodup : (vs.map (·.id)).Nodup
  mem_iff_exact : ∀ v : Variable α, v.id ∈ vs.map (·.id) ↔ ∃ m ∈ ms, 0 < m.exactExponent v
  mem_iff : (∀ m ∈ ms, m.TotalsFit) →
    ∀ v : Variable α, v.id ∈ vs.map (·.id) ↔ ∃ m ∈ ms, 0 < m.exponentOf v
  inFirstPlaces : Variable.InFirstPlaces (written ms) vs

theorem mem_ids_distinct_written {ms : List (Monomial α)} (v : Variable α) :
    v.id ∈ (Variable.distinct (written ms)).map (·.id) ↔ ∃ m ∈ ms, 0 < m.exactExponent v := by
  rw [Variable.mem_ids_distinct, mem_ids_written]
  simp only [Monomial.exactMap_apply]

theorem listsVariables_distinct (ms : List (Monomial α)) :
    ListsVariables ms (Variable.distinct (written ms)) where
  nodup := Variable.nodup_ids_distinct _
  mem_iff_exact := mem_ids_distinct_written
  mem_iff hms v := by
    rw [mem_ids_distinct_written]
    refine exists_congr fun m => and_congr_right fun hm => ?_
    rw [← Monomial.exactMap_apply, (hms m hm).exactMap_eq, Monomial.exponentOf_eq,
      UInt32.lt_iff_toNat_lt]
    rfl
  inFirstPlaces := Variable.inFirstPlaces_distinct _

/-- **The occurring variables are listed exactly and in order.** The list of a monomial, a
polynomial, a scalar or an expression of any form and kind, well-formed or not, is that of its
monomials, elements by rows; the list of a constraint is that of its left side followed by its
right one. Columns and matrices have the lists of the expressions that they are. -/
theorem occurring_listsVariables [One α] :
    (∀ m : Monomial α, ListsVariables [m] m.occurring) ∧
    (∀ p : Polynomial α, ListsVariables p.monomials p.occurring) ∧
    (∀ s : Scalar α, ListsVariables s.toMonomials s.occurring) ∧
    (∀ e : Expression α, ListsVariables e.terms e.occurring) ∧
    (∀ c : Constraint α, ListsVariables (c.left.terms ++ c.right.terms) c.occurring) ∧
    (∀ (k : Kind) (c : Column (k.Entry α)),
      c.occurring k = (Expression.vector k c).occurring) ∧
    ∀ (k : Kind) (m : Matrix (k.Entry α)), m.occurring k = (Expression.matrix k m).occurring := by
  refine ⟨fun m => ?_, fun p => ?_, fun s => ?_, fun e => ?_, fun c => ?_, fun k c => ?_,
    fun k m => ?_⟩
  · rw [m.occurring_eq]
    exact listsVariables_distinct _
  · rw [p.occurring_eq]
    exact listsVariables_distinct _
  · rw [s.occurring_eq]
    exact listsVariables_distinct _
  · rw [e.occurring_eq]
    exact listsVariables_distinct _
  · rw [c.occurring_eq]
    exact listsVariables_distinct _
  · rw [Column.occurring, Expression.occurring, Expression.elements, List.flatMap_map]
  · rw [Matrix.occurring, Expression.occurring, Expression.elements, List.flatMap_map]

example :
    let x : Variable Int := ⟨⟨0⟩, .continuous, 0, 1⟩
    let y : Variable Int := ⟨⟨1⟩, .binary, 0, 1⟩
    let m : Monomial Int := ⟨2, [x, y, x, y], [0, 1, 3, 1]⟩
    m.occurring.map (·.id.index) = [1, 0] := by decide

end DecisionAlgebra
