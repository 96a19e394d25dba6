import DecisionAlgebra.Proofs.Constraints

/-!
# Which variables evaluation asks for

Evaluation looks up the value of every stored factor, element by element and in stored order, and is
refused at the first factor without one. `LooksUp` says that of a computation and a list of
variables; lookups made one after the other add up, so there is one lemma for each way in which
evaluation goes on.

The exponent does not matter to a lookup. A factor with exponent zero is looked up although it does
not occur, so that a point with values for the occurring variables can be too small: it is enough
for an expression at all points exactly when every stored variable occurs. No law of numbers is
used.
-/

namespace DecisionAlgebra

variable {α β γ : Type} {p : Point α} {us vs ws : List (Variable α)}

/-! ## Lookups in order -/

namespace Point

/-- A value where the point gives every variable of the list one, and else refused for the first
variable that has none. -/
def LooksUp (p : Point α) (vs : List (Variable α)) (x : Except Error β) : Prop :=
  match vs.find? fun v => (p v.id).isNone with
  | none => ∃ b, x = .ok b
  | some v => x = .error (.unassigned v.id)

theorem looksUp_ok (b : β) : p.LooksUp [] (.ok b) := ⟨b, rfl⟩

theorem looksUp_value (v : Variable α) : p.LooksUp [v] (p.value v) := by
  unfold LooksUp value
  cases hv : p v.id with
  | none => rw [List.find?_cons_of_pos (by simp [hv])]
  | some x =>
    rw [List.find?_cons_of_neg (by simp [hv])]
    exact ⟨x, rfl⟩

theorem LooksUp.bind {x : Except Error β} {f : β → Except Error γ} (hx : p.LooksUp us x)
    (hf : ∀ b, x = .ok b → p.LooksUp ws (f b)) : p.LooksUp (us ++ ws) (x >>= f) := by
  unfold LooksUp at hx ⊢
  rw [List.find?_append]
  cases hfirst : us.find? fun v => (p v.id).isNone with
  | none =>
    rw [hfirst] at hx
    obtain ⟨b, rfl⟩ := hx
    exact hf b rfl
  | some v =>
    rw [hfirst] at hx
    cases hx
    rfl

/-- What is computed from a value needs no further lookup. -/
theorem LooksUp.map {x : Except Error β} (hx : p.LooksUp us x) {f : β → Except Error γ}
    (hf : ∀ b, x = .ok b → ∃ c, f b = .ok c) : p.LooksUp us (x >>= f) := by
  rw [← us.append_nil]
  exact hx.bind hf

theorem looksUp_foldlM {κ : Type} {names : κ → List (Variable α)} {f : β → κ → Except Error β}
    (hf : ∀ b k, p.LooksUp (names k) (f b k)) (ks : List κ) :
    ∀ b, p.LooksUp (ks.flatMap names) (ks.foldlM f b) := by
  induction ks with
  | nil => intro b; exact looksUp_ok b
  | cons k ks ih =>
    intro b
    rw [List.flatMap_cons, List.foldlM_cons]
    exact (hf b k).bind fun c _ => ih c

theorem looksUp_mapM {κ : Type} {names : κ → List (Variable α)} {f : κ → Except Error β}
    {ks : List κ} (hf : ∀ k ∈ ks, p.LooksUp (names k) (f k)) :
    p.LooksUp (ks.flatMap names) (ks.mapM f) := by
  induction ks with
  | nil => exact looksUp_ok []
  | cons k ks ih =>
    rw [List.flatMap_cons, List.mapM_cons]
    refine (hf k List.mem_cons_self).bind fun _ _ => ?_
    exact (ih fun l hl => hf l (List.mem_cons_of_mem _ hl)).map fun _ _ => ⟨_, rfl⟩

/-- There is a value exactly where the point gives all variables one. -/
theorem LooksUp.exists_ok_iff {x : Except Error β} (hx : p.LooksUp vs x) :
    (∃ b, x = .ok b) ↔ p.Assigns vs := by
  have hassigns : p.Assigns vs ↔ vs.find? (fun v => (p v.id).isNone) = none := by
    rw [List.find?_eq_none]
    refine forall₂_congr fun v _ => ?_
    rw [Bool.not_eq_true, Option.isNone_eq_false_iff, Option.isSome_iff_exists]
  unfold LooksUp at hx
  rw [hassigns]
  split at hx
  next h => exact ⟨fun _ => h, fun _ => hx⟩
  next v h =>
    rw [hx, h]
    exact ⟨nofun, nofun⟩

/-- A refusal names a variable of the list that has no value. -/
theorem LooksUp.exists_of_error {x : Except Error β} (hx : p.LooksUp vs x) {e : Error}
    (h : x = .error e) : ∃ v ∈ vs, p v.id = none ∧ e = .unassigned v.id := by
  unfold LooksUp at hx
  split at hx
  next =>
    obtain ⟨b, rfl⟩ := hx
    cases h
  next v hv =>
    rw [hx] at h
    cases h
    exact ⟨v, List.mem_of_find?_eq_some hv, by simpa using List.find?_some hv, rfl⟩

theorem Assigns.of_ids (h : ∀ v ∈ vs, v.id ∈ ws.map (·.id)) (hp : p.Assigns ws) : p.Assigns vs := by
  intro v hv
  obtain ⟨w, hw, hid⟩ := List.mem_map.mp (h v hv)
  exact hid ▸ hp w hw

end Point

/-! ## Evaluation -/

section Evaluation

variable {P : VariableId → Prop} [Zero α] [One α] [Add α] [Neg α] [Mul α]

omit [Zero α] [Add α] [Neg α] in
theorem Monomial.looksUp_evaluate {m : Monomial α} (hm : m.FactorsIn P) :
    p.LooksUp m.vars (m.evaluate p) := by
  rw [Monomial.vars_eq hm.length_eq, List.map_eq_flatMap]
  exact Point.looksUp_foldlM (fun _ f => (Point.looksUp_value f.1).map fun _ _ => ⟨_, rfl⟩) _ _

theorem Scalar.looksUp_value {s : Scalar α} (hs : s.FactorsIn P) :
    p.LooksUp s.stored (s.value p) := by
  cases s with
  | constant c => exact Point.looksUp_ok c
  | «variable» v => exact Point.looksUp_value v
  | monomial m =>
    have hstored : (monomial m).stored = m.vars := List.append_nil _
    rw [hstored]
    exact Monomial.looksUp_evaluate (hs.each m List.mem_cons_self)
  | polynomial q =>
    have hwalk : p.LooksUp (q.monomials.flatMap (·.vars)) (q.monomials.mapM (·.evaluate p)) :=
      Point.looksUp_mapM fun m hm => Monomial.looksUp_evaluate (hs.each m hm)
    exact hwalk.map fun _ _ => ⟨_, rfl⟩

theorem Scalar.looksUp_evaluate {s : Scalar α} (hs : s.check = .ok ()) :
    p.LooksUp s.stored (s.evaluate p) := by
  rw [evaluate, hs]
  exact looksUp_value (check_eq_ok.mp hs)

/-- **A valid expression is evaluated by looking up its stored variables.** -/
theorem Expression.looksUp_evaluate {e : Expression α} (he : e.check = .ok ()) :
    p.LooksUp e.stored (e.evaluate p) := by
  have hin := check_eq_ok.mp he
  have hwalk : p.LooksUp e.stored (e.elements.mapM (·.evaluate p)) :=
    Point.looksUp_mapM fun s hs => Scalar.looksUp_evaluate (Scalar.check_eq_ok.mpr (hin.each s hs))
  rw [evaluate, he]
  refine hwalk.map fun values hvalues => ?_
  -- there are as many values as elements, so they can be typed
  have hlen : (values.map Scalar.constant).length = e.elements.length := by
    rw [List.length_map, (mapM_eq_ok.mp hvalues).length_eq]
  obtain ⟨v, hv, -⟩ := Grid.exists_toExpression (Grid.fits_of_length hin.length_eq hlen)
  exact ⟨v, hv⟩

theorem ScalarConstraint.looksUp_evaluate [LE α] [DecidableLE α] [BEq α] {c : ScalarConstraint α}
    (hc : c.check = .ok ()) : p.LooksUp c.stored (c.evaluate p) := by
  have hin := check_eq_ok.mp hc
  rw [evaluate, hc]
  refine (Scalar.looksUp_evaluate (Scalar.check_eq_ok.mpr hin.left)).bind fun _ _ => ?_
  exact (Scalar.looksUp_evaluate (Scalar.check_eq_ok.mpr hin.right)).map fun _ _ => ⟨_, rfl⟩

/-- A valid constraint is evaluated by looking up variables that it stores. -/
theorem Constraint.exists_looksUp_evaluate [LE α] [DecidableLE α] [BEq α] {c : Constraint α}
    (hc : c.check = .ok ()) (p : Point α) :
    ∃ vs, (∀ v ∈ vs, v ∈ c.stored) ∧
      ∃ x, p.LooksUp vs x ∧ c.evaluate p = Attempt.checked x := by
  obtain ⟨hl, hr, cs, hcs, helements⟩ := exists_constraints? hc
  refine ⟨cs.flatMap (·.stored), ?_, cs.mapM (·.evaluate p), ?_, by rw [evaluate, hc, hcs]; rfl⟩
  · intro v hv
    obtain ⟨d, hd, hv⟩ := List.mem_flatMap.mp hv
    obtain ⟨-, hdl, hdr⟩ := helements d hd
    rcases List.mem_append.mp hv with h | h
    · exact List.mem_append_left _ (List.mem_flatMap.mpr ⟨d.left, hdl, h⟩)
    · exact List.mem_append_right _ (List.mem_flatMap.mpr ⟨d.right, hdr, h⟩)
  · refine Point.looksUp_mapM fun d hd => ScalarConstraint.looksUp_evaluate ?_
    obtain ⟨-, hdl, hdr⟩ := helements d hd
    exact ScalarConstraint.check_eq_ok.mpr ⟨hl.each _ hdl, hr.each _ hdr⟩

end Evaluation

/-! ## Stored and occurring variables -/

section Occurring

variable [One α]

/-- A variable that occurs is stored. -/
theorem Scalar.mem_ids_stored {s : Scalar α} {id : VariableId}
    (h : id ∈ s.occurring.map (·.id)) : id ∈ s.stored.map (·.id) := by
  obtain ⟨m, hm, hpos⟩ := mem_ids_occurring.mp h
  obtain ⟨f, hf, hid, -⟩ := exists_mem_of_exactSum_pos hpos
  exact List.mem_map.mpr
    ⟨f.1, List.mem_flatMap.mpr ⟨m, hm, (List.of_mem_zip hf).1⟩, hid⟩

theorem Expression.mem_ids_stored {e : Expression α} {id : VariableId}
    (h : id ∈ e.occurring.map (·.id)) : id ∈ e.stored.map (·.id) := by
  obtain ⟨s, hs, hid⟩ := mem_ids_occurring.mp h
  obtain ⟨v, hv, rfl⟩ := List.mem_map.mp (Scalar.mem_ids_stored hid)
  exact List.mem_map.mpr ⟨v, List.mem_flatMap.mpr ⟨s, hs, hv⟩, rfl⟩

/-- Whether every stored variable occurs, so that none is written with exponent zero only. -/
def Expression.StoresOccurring (e : Expression α) : Prop :=
  ∀ v ∈ e.stored, v.id ∈ e.occurring.map (·.id)

instance (e : Expression α) : Decidable e.StoresOccurring :=
  inferInstanceAs (Decidable (∀ v ∈ e.stored, v.id ∈ e.occurring.map (·.id)))

@[inherit_doc Expression.StoresOccurring]
def Constraint.StoresOccurring (c : Constraint α) : Prop :=
  ∀ v ∈ c.stored, v.id ∈ c.occurring.map (·.id)

/-- The occurring variables are as many as the stored ones at every point exactly when every stored
variable occurs. -/
theorem Expression.storesOccurring_iff [Zero α] {e : Expression α} :
    e.StoresOccurring ↔ ∀ p : Point α, p.Assigns e.stored ↔ p.Assigns e.occurring := by
  constructor
  · intro h p
    refine ⟨fun hp => hp.of_ids fun v hv => ?_, fun hp => hp.of_ids h⟩
    exact mem_ids_stored (List.mem_map_of_mem hv)
  · intro h v hv
    -- the point that gives the occurring variables a value and no others
    have hp : Point.Assigns (fun id => if id ∈ e.occurring.map (·.id) then some (0 : α) else none)
        e.occurring := by
      intro w hw
      exact ⟨0, if_pos (List.mem_map_of_mem hw)⟩
    obtain ⟨x, hx⟩ := (h _).mpr hp v hv
    by_contra hnot
    cases hx.symm.trans (if_neg hnot)

end Occurring

section Asked

variable [Zero α] [One α] [Add α] [Neg α] [Mul α] [LE α] [DecidableLE α] [BEq α]

/-- **Evaluation asks for the stored variables.** A valid expression has a value exactly at the
points that give every stored variable one, and is refused elsewhere for a stored variable that has
none; so the occurring variables decide at every point whether there is a value exactly when every
stored variable occurs. A valid constraint is true or false at every point that gives its stored
variables values, and is refused only for one that has none. -/
theorem evaluate_asks_stored :
    (∀ e : Expression α, e.check = .ok () →
      (∀ p : Point α, ((∃ v, e.evaluate p = .ok v) ↔ p.Assigns e.stored) ∧
        ∀ err, e.evaluate p = .error err →
          ∃ v ∈ e.stored, p v.id = none ∧ err = .unassigned v.id) ∧
      (e.StoresOccurring ↔
        ∀ p : Point α, (∃ v, e.evaluate p = .ok v) ↔ p.Assigns e.occurring)) ∧
    ∀ c : Constraint α, c.check = .ok () → ∀ p : Point α,
      (p.Assigns c.stored → ∃ bs, c.evaluate p = .ok bs) ∧
      (c.StoresOccurring → p.Assigns c.occurring → ∃ bs, c.evaluate p = .ok bs) ∧
      ∀ f, c.evaluate p = .error f →
        ∃ v ∈ c.stored, p v.id = none ∧ f = .refused (.unassigned v.id) := by
  constructor
  · intro e he
    have hvalue : ∀ p : Point α, (∃ v, e.evaluate p = .ok v) ↔ p.Assigns e.stored :=
      fun p => (Expression.looksUp_evaluate he).exists_ok_iff
    refine ⟨fun p => ⟨hvalue p, fun err => (Expression.looksUp_evaluate he).exists_of_error⟩, ?_⟩
    rw [Expression.storesOccurring_iff]
    exact forall_congr' fun p => by rw [hvalue p]
  · intro c hc p
    obtain ⟨vs, hvs, x, hx, hevaluate⟩ := Constraint.exists_looksUp_evaluate hc p
    have hvalue : p.Assigns c.stored → ∃ bs, c.evaluate p = .ok bs := by
      intro hp
      obtain ⟨bs, hbs⟩ := hx.exists_ok_iff.mpr fun v hv => hp v (hvs v hv)
      exact ⟨bs, hevaluate.trans (congrArg Attempt.checked hbs)⟩
    refine ⟨hvalue, fun hstores hp => hvalue (hp.of_ids hstores), fun f hf => ?_⟩
    rw [hevaluate] at hf
    cases x with
    | ok bs => cases hf
    | error err =>
      obtain ⟨v, hv, hnone, rfl⟩ := hx.exists_of_error rfl
      cases hf
      exact ⟨v, hvs v hv, hnone, rfl⟩

end Asked

/-- A column of `2 x x^0` and `3 y` has a value wherever `x` and `y` have, because the factor with
exponent zero is a repeated one; and `x` at most one is true or false where `x` is zero. -/
theorem evaluate_asks_stored_column :
    let x : Variable ℤ := .numbered 0
    let y : Variable ℤ := .numbered 1
    let e : Expression ℤ := .vector .monomial ⟨[⟨2, [x, x], [1, 0]⟩, ⟨3, [y], [1]⟩]⟩
    let c : Constraint ℤ := .scalar ⟨.variable x, .lessEqual, .constant 1⟩
    (e.check = .ok () ∧ ∀ p : Point ℤ, (∃ v, e.evaluate p = .ok v) ↔ p.Assigns [x, y]) ∧
      c.check = .ok () ∧ ∃ bs, c.evaluate (.ofList [(x, 0)]) = .ok bs := by
  intro x y e c
  obtain ⟨hexpressions, hconstraints⟩ := evaluate_asks_stored (α := ℤ)
  have he : e.check = .ok () := by cbv
  have hc : c.check = .ok () := by cbv
  have hoccurring : e.occurring = [x, y] := by rfl
  have hstores : e.StoresOccurring := by decide
  refine ⟨⟨he, fun p => ?_⟩, hc, (hconstraints c hc _).1 (by decide)⟩
  rw [← hoccurring]
  exact (hexpressions e he).2.mp hstores p

/-- A factor with exponent zero is asked for although it does not occur: without values `3 x^0` has
no occurring variable, and it is refused for `x`. -/
theorem evaluate_zero_exponent :
    let x : Variable ℤ := .numbered 0
    let e : Expression ℤ := .scalar (.monomial ⟨3, [x], [0]⟩)
    e.check = .ok () ∧ e.occurring = [] ∧ Point.Assigns .empty e.occurring ∧
      e.evaluate .empty = .error (.unassigned x.id) := by
  intro x e
  exact ⟨by cbv, rfl, nofun, by cbv⟩

end DecisionAlgebra
