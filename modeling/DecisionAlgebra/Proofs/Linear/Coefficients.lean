import DecisionAlgebra.Linear.Representation
import DecisionAlgebra.Proofs.Linear.Difference

/-!
# Coefficient rows and inner products

Forms and systems compute their inner products in two different orders of operations; over exact
numbers both are the one sum `dot`. A coefficient row is built term by term: the invariant is that
the inner product of the row with the values of the ordering is the value of the terms met so far.
It survives an ordering that lists a variable twice, because a coefficient goes to the first place
only.
-/

namespace DecisionAlgebra

open MvPolynomial (eval)

variable {α : Type}

/-! ## Lengths of rows -/

theorem length_of_addCoefficient [Add α] {ordering : List (Variable α)} {row row' : List α}
    {m : Monomial α} (h : addCoefficient ordering row m = .ok row') :
    row'.length = row.length := by
  unfold addCoefficient at h
  split at h
  next => rw [Except.ok.inj h]
  next =>
    split at h
    next => rw [← Except.ok.inj h, List.length_modify]
    next => cases h

/-- A row has an entry for every variable of the ordering. -/
theorem length_of_coefficientRow [Zero α] [Add α] {ms : List (Monomial α)}
    {ordering : List (Variable α)} {row : List α} (h : coefficientRow ms ordering = .ok row) :
    row.length = ordering.length := by
  have hfold : ∀ start : List α, ms.foldlM (addCoefficient ordering) start = .ok row →
      row.length = start.length := by
    clear h
    induction ms with
    | nil =>
      intro start hrun
      rw [Except.ok.inj hrun]
    | cons m ms ih =>
      intro start hrun
      rw [List.foldlM_cons, bind_eq_ok] at hrun
      obtain ⟨next, hfirst, hrest⟩ := hrun
      exact (ih next hrest).trans (length_of_addCoefficient hfirst)
  exact (hfold _ h).trans List.length_replicate

/-- The rows of a list of scalars are of one length. -/
theorem length_of_mem_rows [Zero α] [One α] [Add α] {ss : List (Scalar α)}
    {ordering : List (Variable α)} {rows : List (List α)}
    (h : ss.mapM (fun s => coefficientRow s.toMonomials ordering) = .ok rows) :
    ∀ row ∈ rows, row.length = ordering.length := by
  intro row hrow
  obtain ⟨s, -, hs⟩ := exists_of_mem_forall₂ (mapM_eq_ok.mp h) hrow
  exact length_of_coefficientRow hs

section Ring

variable [CommRing α]

/-! ## Inner products -/

/-- The inner product of two lists, as far as both reach. -/
def dot (a x : List α) : α := (List.zipWith (· * ·) a x).sum

theorem foldl_add_eq (xs : List α) (a : α) : xs.foldl (· + ·) a = a + xs.sum := by
  induction xs generalizing a with
  | nil => rw [List.foldl_nil, List.sum_nil, add_zero]
  | cons x xs ih => rw [List.foldl_cons, ih, List.sum_cons, add_assoc]

theorem Lanes.sum_eq (s : Lanes α) (xs : List α) : s.sum xs = s.join + xs.sum := by
  -- eight lanes at a time, and what is left over one by one
  induction s, xs using Lanes.sum.induct with
  | case1 s t0 t1 t2 t3 t4 t5 t6 t7 rest ih =>
    rw [Lanes.sum, ih]
    simp only [Lanes.join, List.sum_cons]
    ring
  | case2 s rest hshort =>
    rw [Lanes.sum]
    · exact foldl_add_eq rest s.join
    · exact hshort

theorem laneDot?_eq {a x : List α} (h : a.length = x.length) : laneDot? a x = some (dot a x) := by
  have hzero : (Lanes.zero : Lanes α).join = 0 := by simp [Lanes.join, Lanes.zero]
  rw [laneDot?, if_pos h, Lanes.sum_eq, hzero, zero_add]
  rfl

theorem rowDot_eq (a x : List α) : rowDot a x = dot a x := by
  rw [rowDot, foldl_add_eq, zero_add]
  rfl

theorem dot_cons (a b : α) (as bs : List α) : dot (a :: as) (b :: bs) = a * b + dot as bs := by
  simp [dot]

theorem dot_replicate_zero (n : Nat) (x : List α) : dot (List.replicate n 0) x = 0 := by
  induction n generalizing x with
  | zero => rfl
  | succ n ih =>
    cases x with
    | nil => rfl
    | cons y x => rw [List.replicate_succ, dot_cons, ih, zero_mul, add_zero]

theorem dot_map_mul (s : α) (a x : List α) : dot (a.map (s * ·)) x = s * dot a x := by
  induction a generalizing x with
  | nil => exact (mul_zero s).symm
  | cons b a ih =>
    cases x with
    | nil => exact (mul_zero s).symm
    | cons y x => rw [List.map_cons, dot_cons, dot_cons, ih]; ring

/-- What is added to an entry of a row counts with the number at its place. -/
theorem dot_modify (c : α) {a x : List α} {i : Nat} {y : α} (hi : i < a.length)
    (hy : x[i]? = some y) : dot (a.modify i (· + c)) x = dot a x + c * y := by
  induction a generalizing x i with
  | nil => cases hi
  | cons b a ih =>
    cases x with
    | nil => cases hy
    | cons z x =>
      cases i with
      | zero =>
        obtain rfl : z = y := by simpa using hy
        rw [List.modify_zero_cons, dot_cons, dot_cons]
        ring
      | succ i =>
        rw [List.modify_succ_cons, dot_cons, dot_cons,
          ih (Nat.lt_of_succ_lt_succ hi) (by simpa using hy), add_assoc]

/-! ## Coefficient rows -/

/-- The ordering lists a variable with this identifier. -/
def Lists (ordering : List (Variable α)) (id : VariableId) : Prop := id ∈ ordering.map (·.id)

instance (ordering : List (Variable α)) (id : VariableId) : Decidable (Lists ordering id) :=
  inferInstanceAs (Decidable (id ∈ ordering.map (·.id)))

omit [CommRing α] in
/-- A variable has a place in an ordering that lists it. -/
theorem exists_findIdx?_iff {ordering : List (Variable α)} {v : Variable α} :
    (∃ i, ordering.findIdx? (· == v) = some i) ↔ Lists ordering v.id := by
  rw [← Option.isSome_iff_exists, List.findIdx?_isSome, List.any_eq_true, Lists, List.mem_map]
  exact exists_congr fun w => and_congr_right' Variable.beq_iff

theorem exists_addCoefficient {ordering : List (Variable α)} (row : List α) {m : Monomial α} :
    (∃ row', addCoefficient ordering row m = .ok row') ↔
      ∀ v, m.linearVariable = some v → Lists ordering v.id := by
  unfold addCoefficient
  split
  next hnone =>
    refine ⟨fun _ v hv => ?_, fun _ => ⟨row, rfl⟩⟩
    rw [hnone] at hv
    cases hv
  next v hv =>
    split
    next i hi =>
      refine ⟨fun _ w hw => ?_, fun _ => ⟨_, rfl⟩⟩
      obtain rfl : v = w := Option.some.inj (hv.symm.trans hw)
      exact exists_findIdx?_iff.mp ⟨i, hi⟩
    next hnone =>
      refine ⟨nofun, fun h => ?_⟩
      obtain ⟨i, hi⟩ := exists_findIdx?_iff.mpr (h v hv)
      cases hnone.symm.trans hi

/-- One more term adds its value. -/
theorem dot_of_addCoefficient {ordering : List (Variable α)} {row row' : List α} {m : Monomial α}
    (hm : m.IsLinearTerm) (hlen : row.length = ordering.length)
    (h : addCoefficient ordering row m = .ok row') (x : VariableId → α) :
    dot row' (ordering.map (x ·.id)) = dot row (ordering.map (x ·.id)) + eval x m.exactMeaning := by
  unfold addCoefficient at h
  cases hm with
  | zero hvariable hcoefficient =>
    rw [hvariable] at h
    obtain rfl : row = row' := Except.ok.inj h
    rw [Monomial.exactMeaning, hcoefficient, map_zero, map_zero, add_zero]
  | term v hvariable hexponents =>
    rw [hvariable] at h
    split at h
    next hnone => cases hnone
    next w hw =>
      obtain rfl : v = w := Option.some.inj hw
      split at h
      next i hi =>
        obtain ⟨hlt, hid, -⟩ := List.findIdx?_eq_some_iff_getElem.mp hi
        obtain rfl : row.modify i (· + m.coefficient) = row' := Except.ok.inj h
        have hplace : (ordering.map (x ·.id))[i]? = some (x v.id) := by
          rw [List.getElem?_map, List.getElem?_eq_getElem hlt, ← Variable.beq_iff.mp hid]
          rfl
        have hvalue : eval x m.exactMeaning = m.coefficient * x v.id := by
          rw [Monomial.exactMeaning, hexponents, eval_linear]
        rw [hvalue]
        exact dot_modify _ (hlen ▸ hlt) hplace
      next => cases h

theorem exists_coefficientRow {ms : List (Monomial α)} {ordering : List (Variable α)} :
    (∃ row, coefficientRow ms ordering = .ok row) ↔
      ∀ m ∈ ms, ∀ v, m.linearVariable = some v → Lists ordering v.id := by
  -- the row so far has no say in whether there is a place for the next term
  have h : ∀ row : List α, (∃ row', ms.foldlM (addCoefficient ordering) row = .ok row') ↔
      ∀ m ∈ ms, ∀ v, m.linearVariable = some v → Lists ordering v.id := by
    induction ms with
    | nil => intro row; exact ⟨fun _ => nofun, fun _ => ⟨row, rfl⟩⟩
    | cons m ms ih =>
      intro row
      rw [List.foldlM_cons, List.forall_mem_cons, ← exists_addCoefficient row]
      simp only [bind_eq_ok]
      constructor
      · intro hrun
        obtain ⟨row', row₁, hfirst, hrest⟩ := hrun
        exact ⟨⟨row₁, hfirst⟩, (ih row₁).mp ⟨row', hrest⟩⟩
      · intro hall
        obtain ⟨⟨row₁, hfirst⟩, hrest⟩ := hall
        obtain ⟨row', hrun⟩ := (ih row₁).mpr hrest
        exact ⟨row', row₁, hfirst, hrun⟩
  exact h _

/-- **A coefficient row computes the value of its terms.** -/
theorem dot_of_coefficientRow {ms : List (Monomial α)} {ordering : List (Variable α)}
    {row : List α} (hms : ∀ m ∈ ms, m.IsLinearTerm) (h : coefficientRow ms ordering = .ok row)
    (x : VariableId → α) :
    dot row (ordering.map (x ·.id)) = eval x (termsExact ms) := by
  -- the invariant, for any row to start from
  have hfold : ∀ start : List α, start.length = ordering.length →
      ms.foldlM (addCoefficient ordering) start = .ok row →
      dot row (ordering.map (x ·.id)) =
        dot start (ordering.map (x ·.id)) + eval x (termsExact ms) := by
    clear h
    induction ms with
    | nil =>
      intro start _ hrun
      obtain rfl : start = row := Except.ok.inj hrun
      rw [termsExact_nil, map_zero, add_zero]
    | cons m ms ih =>
      intro start hlen hrun
      rw [List.foldlM_cons, bind_eq_ok] at hrun
      obtain ⟨next, hfirst, hrest⟩ := hrun
      have hnext := (length_of_addCoefficient hfirst).trans hlen
      rw [ih (fun n hn => hms n (List.mem_cons_of_mem _ hn)) next hnext hrest,
        dot_of_addCoefficient (hms m List.mem_cons_self) hlen hfirst x, termsExact_cons, map_add,
        add_assoc]
  rw [hfold _ List.length_replicate h, dot_replicate_zero, zero_add]

end Ring

/-! ## Dense matrices -/

namespace DenseMatrix

theorem get_ofFn {rows cols : Nat} (f : Fin rows → Fin cols → α) (i : Fin rows) (j : Fin cols) :
    (ofFn rows cols f).get i j = f i j := by
  have hlen : ∀ column ∈ (List.finRange cols).map (fun j => (List.finRange rows).map (f · j)),
      column.length = rows := by
    intro column hcolumn
    obtain ⟨k, -, rfl⟩ := List.mem_map.mp hcolumn
    rw [List.length_map, List.length_finRange]
  have hplace := getElem?_flatten_of_length i.isLt hlen j.val
  have hcolumn : ((List.finRange cols).map fun j => (List.finRange rows).map (f · j))[j.val]? =
      some ((List.finRange rows).map (f · j)) := by simp
  have hentry : ((List.finRange rows).map (f · j))[i.val]? = some (f i j) := by simp
  rw [hcolumn, Option.bind_some, hentry] at hplace
  unfold get
  apply Option.some.inj
  rw [← Array.getElem?_eq_getElem]
  show ((List.finRange cols).flatMap fun j => (List.finRange rows).map fun i => f i j).toArray[
    j.val * rows + i.val]? = _
  rw [List.getElem?_toArray, List.flatMap_def]
  exact hplace

theorem toRows_ofFn {rows cols : Nat} (f : Fin rows → Fin cols → α) :
    (ofFn rows cols f).toRows =
      (List.finRange rows).map fun i => (List.finRange cols).map fun j => f i j := by
  unfold toRows
  exact List.map_congr_left fun i _ => List.map_congr_left fun j _ => get_ofFn f i j

/-- A matrix made of rows gives the rows back. -/
theorem exists_ofRowMajor? {n : Nat} {rs : List (List α)} (h : ∀ r ∈ rs, r.length = n) :
    ∃ d : DenseMatrix α, ofRowMajor? rs.length n rs.flatten = some d ∧ d.rows = rs.length ∧
      d.cols = n ∧ d.toRows = rs := by
  have hlen : rs.length * n ≤ rs.flatten.toArray.size := by
    rw [List.size_toArray, length_flatten_of_length h]
  rw [ofRowMajor?, dif_pos hlen]
  refine ⟨_, rfl, rfl, rfl, ?_⟩
  rw [toRows_ofFn]
  refine List.ext_getElem (by simp) fun i hi hi' => ?_
  rw [List.getElem_map, List.getElem_finRange]
  have hrow : rs[i].length = n := h _ (List.getElem_mem hi')
  refine List.ext_getElem (by simp [hrow]) fun j hj hj' => ?_
  rw [List.getElem_map, List.getElem_finRange]
  have hplace := getElem?_flatten_of_length (hrow ▸ hj') h i
  rw [List.getElem?_eq_getElem hi', Option.bind_some, List.getElem?_eq_getElem hj'] at hplace
  apply Option.some.inj
  rw [← hplace, List.getElem_toArray, ← List.getElem?_eq_getElem]
  rfl

end DenseMatrix

end DecisionAlgebra
