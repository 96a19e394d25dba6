import DecisionAlgebra.Proofs.Occurrence
import DecisionAlgebra.Proofs.Places

/-!
# Families of a list

Merging factors, collecting like terms and listing variables once are walks from the left that keep
one entry for each key met. What such a walk ends with can be said without it: the list falls into
families of elements with one key, in the order in which the keys first occur, and every family is
folded from the left on its own. `foldl_upsert` says that of any walk whose step is `upsert`, and
a normal form is read off it: every variable once, at its first place, with its total exponent.
-/

namespace DecisionAlgebra

variable {α β κ ν : Type}

/-! ## Families by a key -/

/-- An element of a list and the later ones of its kind, in order. -/
structure Family (α : Type) where
  first : α
  others : List α

/-- All elements of a family, in order. -/
def Family.members (c : Family α) : List α := c.first :: c.others

section Key

variable [DecidableEq κ]

/-- The families of a list by a key: the first element with the later ones of its key, then the
families of what is left. -/
def families (key : α → κ) : List α → List (Family α)
  | [] => []
  | x :: xs => ⟨x, xs.filter (key · = key x)⟩ :: families key (xs.filter (key · ≠ key x))
termination_by xs => xs.length
decreasing_by
  rw [List.length_unattach, List.length_cons, Nat.lt_succ_iff]
  exact (List.length_filter_le _ _).trans List.length_attach.le

/-- To show something of a list, it may be assumed of the elements that are not of the first one's
key. -/
@[elab_as_elim]
theorem families_induction (key : α → κ) {motive : List α → Prop} (nil : motive [])
    (cons : ∀ x xs, motive (xs.filter (key · ≠ key x)) → motive (x :: xs)) : ∀ xs, motive xs
  | [] => nil
  | x :: xs => cons x xs (families_induction key nil cons _)
termination_by xs => xs.length
decreasing_by exact Nat.lt_succ_of_le (List.length_filter_le _ _)

/-- Two keys that tell the elements of a list apart alike make the same families. -/
theorem families_congr {μ : Type} [DecidableEq μ] {key : α → κ} {key' : α → μ} {xs : List α}
    (h : ∀ x ∈ xs, ∀ y ∈ xs, key x = key y ↔ key' x = key' y) :
    families key xs = families key' xs := by
  induction xs using families_induction key with
  | nil => rw [families, families]
  | cons x xs ih =>
    have hx : ∀ y ∈ xs, key y = key x ↔ key' y = key' x :=
      fun y hy => h y (List.mem_cons_of_mem _ hy) x List.mem_cons_self
    have hsame : xs.filter (key · = key x) = xs.filter (key' · = key' x) :=
      List.filter_congr fun y hy => decide_eq_decide.mpr (hx y hy)
    have hothers : xs.filter (key · ≠ key x) = xs.filter (key' · ≠ key' x) :=
      List.filter_congr fun y hy => decide_eq_decide.mpr (not_congr (hx y hy))
    have hrest := ih fun y hy z hz => h y (List.mem_cons_of_mem _ (List.mem_of_mem_filter hy)) z
      (List.mem_cons_of_mem _ (List.mem_of_mem_filter hz))
    rw [families, families, hrest, hsame, hothers]

/-- What makes a list of families the one of a list by a key, whoever has built it. -/
structure AreFamilies (key : α → κ) (xs : List α) (cs : List (Family α)) : Prop where
  /-- One family for each key, in the order in which the keys first occur. -/
  keys_eq : cs.map (key ·.first) = (xs.map key).eraseDups
  /-- A family has all elements of its key, in order. -/
  members_eq : ∀ c ∈ cs, c.members = xs.filter (key · = key c.first)
  /-- No element is lost, and none is in two families. -/
  perm : (cs.flatMap Family.members).Perm xs

/-- A family starts with an element of the list. -/
theorem AreFamilies.first_mem {key : α → κ} {xs : List α} {cs : List (Family α)}
    (h : AreFamilies key xs cs) {c : Family α} (hc : c ∈ cs) : c.first ∈ xs := by
  have hmem : c.first ∈ c.members := List.mem_cons_self
  rw [h.members_eq c hc] at hmem
  exact List.mem_of_mem_filter hmem

theorem areFamilies_families (key : α → κ) (xs : List α) :
    AreFamilies key xs (families key xs) := by
  induction xs using families_induction key with
  | nil => rw [families]; exact ⟨rfl, nofun, .nil⟩
  | cons x xs ih =>
    rw [families]
    refine ⟨?_, fun c hc => ?_, ?_⟩
    · rw [List.map_cons, ih.keys_eq, List.map_cons, List.eraseDups_cons, List.filter_map]
      refine congrArg (fun ys => key x :: (List.map key ys).eraseDups) ?_
      exact List.filter_congr fun y _ => by simp [beq_eq_decide]
    · rcases List.mem_cons.mp hc with rfl | hc'
      · rw [Family.members, List.filter_cons_of_pos (by simp)]
      · -- the first element of a later family has another key than the first of all
        have hfirst := List.mem_filter.mp (ih.first_mem hc')
        have hne : key c.first ≠ key x := by simpa using hfirst.2
        rw [ih.members_eq c hc', List.filter_filter,
          List.filter_cons_of_neg (by simpa using hne.symm)]
        refine List.filter_congr fun y _ => ?_
        by_cases hy : key y = key c.first
        · simp [hy, hne]
        · simp [hy]
    · rw [List.flatMap_cons, Family.members, List.cons_append]
      refine List.Perm.cons x ((ih.perm.append_left _).trans ?_)
      have hsplit := List.filter_append_perm (fun y => decide (key y = key x)) xs
      simpa using hsplit

/-! ## Walks that keep one entry for each key -/

/-- The step of a walk, for an element whose key has a `name` in the entries. -/
def keep (isKey : α → ν → Bool) (name : α → ν) (new : α → β) (change : α → β → β)
    (gs : List (ν × β)) (x : α) : List (ν × β) :=
  upsert (isKey x) (change x) (name x) (new x) gs

variable {isKey : α → ν → Bool} {name : α → ν} {new : α → β} {change : α → β → β} {key : α → κ}

/-- The head of the entries takes the elements of its key, and the others go by. -/
theorem foldl_keep_cons (h : ∀ x y, isKey x (name y) = decide (key y = key x)) (y : α)
    (xs : List α) : ∀ (b : β) (gs : List (ν × β)),
      xs.foldl (keep isKey name new change) ((name y, b) :: gs) =
        (name y, (xs.filter (key · = key y)).foldl (fun b x => change x b) b) ::
          (xs.filter (key · ≠ key y)).foldl (keep isKey name new change) gs := by
  induction xs with
  | nil => intro b gs; rfl
  | cons x xs ih =>
    intro b gs
    rw [List.foldl_cons, keep, upsert, h]
    by_cases hx : key x = key y
    · rw [if_pos (by simpa using hx.symm), ih, List.filter_cons_of_pos (by simpa using hx),
        List.filter_cons_of_neg (by simpa using hx), List.foldl_cons]
    · rw [if_neg (by simpa using Ne.symm hx), ih, List.filter_cons_of_neg (by simpa using hx),
        List.filter_cons_of_pos (by simpa using hx), List.foldl_cons]
      rfl

/-- **A walk that keeps one entry for each key folds every family on its own.** -/
theorem foldl_keep (h : ∀ x y, isKey x (name y) = decide (key y = key x)) (xs : List α) :
    xs.foldl (keep isKey name new change) [] = (families key xs).map fun c =>
      (name c.first, c.others.foldl (fun b x => change x b) (new c.first)) := by
  induction xs using families_induction key with
  | nil => rw [families]; rfl
  | cons x xs ih =>
    rw [List.foldl_cons, families, List.map_cons, ← ih]
    exact foldl_keep_cons h x xs (new x) []

end Key

/-! ## Every variable once -/

namespace Variable

theorem distinctFrom_congr (vs : List (Variable α)) :
    ∀ {s t : List VariableId}, (∀ id, id ∈ s ↔ id ∈ t) → distinctFrom s vs = distinctFrom t vs := by
  induction vs with
  | nil => intro s t _; rfl
  | cons v vs ih =>
    intro s t h
    rw [distinctFrom, distinctFrom, ih h, ih (s := v.id :: s) (t := v.id :: t) (by simp [h])]
    simp only [h]

/-- An identifier seen before is left out from the start. -/
theorem distinctFrom_cons (id : VariableId) (vs : List (Variable α)) :
    ∀ seen : List VariableId,
      distinctFrom (id :: seen) vs = distinctFrom seen (vs.filter (·.id ≠ id)) := by
  induction vs with
  | nil => intro seen; rfl
  | cons v vs ih =>
    intro seen
    rw [distinctFrom]
    by_cases hv : v.id = id
    · rw [if_pos (hv ▸ List.mem_cons_self), List.filter_cons_of_neg (by simpa using hv), ih]
    · have hmem : v.id ∈ id :: seen ↔ v.id ∈ seen :=
        List.mem_cons.trans (or_iff_right hv)
      have hswap : distinctFrom (v.id :: id :: seen) vs = distinctFrom (id :: v.id :: seen) vs :=
        distinctFrom_congr vs fun j => by simp only [List.mem_cons]; tauto
      rw [List.filter_cons_of_pos (by simpa using hv), distinctFrom, hswap, ih, ih]
      simp only [hmem]

theorem distinct_cons (v : Variable α) (vs : List (Variable α)) :
    distinct (v :: vs) = v :: distinct (vs.filter (·.id ≠ v.id)) := by
  rw [distinct, distinctFrom, if_neg List.not_mem_nil, distinctFrom_cons]
  rfl

/-- A list without repetitions is its own list of distinct variables. -/
theorem distinct_of_nodup {vs : List (Variable α)} (h : (vs.map (·.id)).Nodup) :
    distinct vs = vs := by
  induction vs with
  | nil => rfl
  | cons v vs ih =>
    rw [List.map_cons, List.nodup_cons] at h
    have hothers : vs.filter (·.id ≠ v.id) = vs := by
      refine List.filter_eq_self.mpr fun w hw => ?_
      have hne : w.id ≠ v.id := fun hid => h.1 (hid ▸ List.mem_map_of_mem hw)
      simpa using hne
    rw [distinct_cons, hothers, ih h.2]

/-- The distinct variables are the first ones of the families by identifier. -/
theorem distinct_map_fst {τ : Type} (fs : List (Variable α × τ)) :
    distinct (fs.map (·.1)) = (families (·.1.id) fs).map (·.first.1) := by
  induction fs using families_induction fun f : Variable α × τ => f.1.id with
  | nil => rw [families]; rfl
  | cons f fs ih =>
    rw [List.map_cons, distinct_cons, families, List.map_cons, List.filter_map]
    exact congrArg (f.1 :: ·) ih

end Variable

/-! ## Merged factors -/

namespace Monomial

theorem foldl_add_exponents (fs : List (Variable α × UInt32)) (e : UInt32) :
    fs.foldl (fun e f => e + f.2) e = e + (fs.map (·.2)).sum := by
  induction fs generalizing e with
  | nil => exact (add_zero e).symm
  | cons f fs ih => rw [List.foldl_cons, ih, List.map_cons, List.sum_cons, add_assoc]

/-- Merging keeps every variable at its first place, with its total exponent. -/
theorem mergedFactors_eq (m : Monomial α) : m.mergedFactors =
    (Variable.distinct (m.factors.map (·.1))).map fun v => (v, m.exponentOf v) := by
  have hstep : (fun gs f => addFactor f gs : List (Variable α × UInt32) → Variable α × UInt32 → _) =
      keep (fun f v => v == f.1) (·.1) (·.2) (fun f e => e + f.2) :=
    funext₂ fun gs f => addFactor_eq_upsert f gs
  have hkey : ∀ f g : Variable α × UInt32, (g.1 == f.1) = decide (g.1.id = f.1.id) :=
    fun f g => Bool.eq_iff_iff.mpr (Variable.beq_iff.trans decide_eq_true_iff.symm)
  rw [mergedFactors, hstep, foldl_keep hkey, Variable.distinct_map_fst, List.map_map]
  refine List.map_congr_left fun c hc => Prod.ext rfl ?_
  -- the total is taken over the family of the variable
  have hmembers := (areFamilies_families (·.1.id) m.factors).members_eq c hc
  have hfilter : m.factors.filter (·.1 == c.first.1) = c.members := by
    rw [hmembers]
    exact List.filter_congr fun f _ => hkey _ _
  show c.others.foldl (fun e f => e + f.2) c.first.2 = m.exponentOf c.first.1
  rw [foldl_add_exponents, exponentOf, hfilter]
  rfl

/-- **The normal form of a monomial**: the variables with a positive total exponent, each at its
first place and with that exponent. -/
theorem normalized_eq (m : Monomial α) :
    m.normalized = ofFactors m.coefficient
      (((Variable.distinct (m.factors.map (·.1))).filter m.contains).map
        fun v => (v, m.exponentOf v)) := by
  rw [normalized, mergedFactors_eq, List.filter_map]
  rfl

end Monomial

end DecisionAlgebra
