import DecisionAlgebra.Proofs.Simplification

/-!
# Vectors and matrices element by element

An operation on a vector or a matrix takes it apart into scalars, works on each of them and types
the results together, which lifts them into one kind. Simplifying does not take it apart: it works
on the entries within their kind. Both ways the element at a position of the result has the terms
of what the operation makes of the element there, for any numbers.

What may differ is its kind. Simplifying keeps that; the other results are of the least kind that
holds the results for all the elements, where constants and variables meet at the monomials.
-/

namespace DecisionAlgebra

variable {α : Type}

/-! ## The least kind -/

/-- The least kind that holds the scalars with a property: each of them can be lifted into it, and
it is within every kind into which each of them can be lifted. -/
structure Kind.IsLeast [One α] (k : Kind) (P : Scalar α → Prop) : Prop where
  holds : ∀ s, P s → ∃ x, s.toEntry k = .ok x
  least : ∀ l : Kind, (∀ s, P s → ∃ x, s.toEntry l = .ok x) → k.Within l

namespace Grid

variable [One α]

/-- The kind of a grid is the least one that holds its elements. -/
theorem isLeast_kind {g : Grid α} (hne : g.elements ≠ []) : g.kind.IsLeast (· ∈ g.elements) := by
  refine ⟨fun s hs => ?_, fun l hl => ?_⟩
  · exact Scalar.exists_toEntry_iff.mpr (Kind.within_joinAll (List.mem_map_of_mem hs))
  · have hkinds : ∀ k ∈ g.elements.map Scalar.kind, k.Within l := by
      intro k hk
      obtain ⟨s, hs, rfl⟩ := List.mem_map.mp hk
      exact Scalar.exists_toEntry_iff.mp (hl s hs)
    exact Kind.joinAll_within (fun hnil => hne (List.map_eq_nil_iff.mp hnil)) hkinds

end Grid

/-! ## Elements by position -/

namespace Expression

/-- There is an element with the one property, and all before it by rows have the other one. -/
def FirstWith (e : Expression α) (A B : Scalar α → Prop) : Prop :=
  ∃ i j s, e.at? i j = .ok s ∧ B s ∧ ∀ i' < e.dims.rows, ∀ j' < e.dims.cols,
    (i' < i ∨ i' = i ∧ j' < j) → ∃ t, e.at? i' j' = .ok t ∧ A t

theorem firstWith_iff {e : Expression α} (he : e.elements.length = e.dims.size)
    {A B : Scalar α → Prop} :
    e.FirstWith A B ↔ ∃ before s after, e.elements = before ++ s :: after ∧
      (∀ t ∈ before, A t) ∧ B s := by
  constructor
  · intro h
    obtain ⟨i, j, s, hs, hB, hA⟩ := h
    obtain ⟨hi, hj, hplace⟩ := at?_eq_ok.mp hs
    obtain ⟨hk, rfl⟩ := List.getElem?_eq_some_iff.mp hplace
    refine ⟨e.elements.take (i * e.dims.cols + j), _, e.elements.drop (i * e.dims.cols + j + 1),
      ?_, fun t ht => ?_, hB⟩
    · rw [List.cons_getElem_drop_succ, List.take_append_drop]
    · obtain ⟨m, hm, rfl⟩ := List.mem_take_iff_getElem.mp ht
      have hmk : m < i * e.dims.cols + j := (Nat.lt_min.mp hm).1
      have hml : m < e.elements.length := (Nat.lt_min.mp hm).2
      -- the position of an earlier place comes before `(i, j)`
      obtain ⟨hi', hj'⟩ := Shape.position_lt (he ▸ hml)
      rw [← Nat.div_add_mod' m e.dims.cols, Shape.place_lt_place_iff hj hj'] at hmk
      obtain ⟨t, ht, hAt⟩ := hA _ hi' _ hj' hmk
      rw [at?_of_getElem? he (List.getElem?_eq_getElem hml)] at ht
      exact Except.ok.inj ht ▸ hAt
  · intro h
    obtain ⟨before, s, after, helements, hA, hB⟩ := h
    have hs : e.elements[before.length]? = some s := by rw [helements]; simp
    refine ⟨_, _, s, at?_of_getElem? he hs, hB, fun i' hi' j' hj' hbefore => ?_⟩
    have hk : before.length < e.dims.size := he ▸ (List.getElem?_eq_some_iff.mp hs).1
    rw [← Shape.place_lt_place_iff (Shape.position_lt hk).2 hj', Nat.div_add_mod'] at hbefore
    refine ⟨before[i' * e.dims.cols + j'], ?_, hA _ (List.getElem_mem hbefore)⟩
    rw [at?_eq_ok, helements, List.getElem?_append_left hbefore]
    exact ⟨hi', hj', List.getElem?_eq_getElem hbefore⟩

/-! ## Results element by element -/

/-- `d` has the form and the shape of `e`, and at every position the terms of what `R` makes of the
element of `e` there. -/
structure Elementwise [One α] (R : Scalar α → Scalar α → Prop) (e d : Expression α) : Prop where
  form_eq : d.form = e.form
  dims_eq : d.dims = e.dims
  element : ∀ i < e.dims.rows, ∀ j < e.dims.cols, ∃ s t u, e.at? i j = .ok s ∧ R s t ∧
    d.at? i j = .ok u ∧ u.toMonomials = t.toMonomials

/-- What `R` makes of an element. -/
def Results (R : Scalar α → Scalar α → Prop) (e : Expression α) (t : Scalar α) : Prop :=
  ∃ s ∈ e.elements, R s t

/-- The results at the positions are of the least kind that holds them all. -/
structure LeastElementwise [One α] (R : Scalar α → Scalar α → Prop) (e d : Expression α) : Prop
    extends Elementwise R e d where
  kind_least : d.kind.IsLeast (Results R e)

section One

variable [One α] {R : Scalar α → Scalar α → Prop} {e d : Expression α}

/-- Lists of elements of which each has the terms of a result are related position by position. -/
theorem elementwise_of_elements (hform : d.form = e.form) (hdims : d.dims = e.dims)
    (he : e.elements.length = e.dims.size)
    (h : List.Forall₂ (fun s u => ∃ t, R s t ∧ u.toMonomials = t.toMonomials)
      e.elements d.elements) : Elementwise R e d := by
  refine ⟨hform, hdims, fun i hi j hj => ?_⟩
  have hplace : i * e.dims.cols + j < e.elements.length := he ▸ Shape.place_lt hi hj
  have hplace' : i * e.dims.cols + j < d.elements.length := h.length_eq ▸ hplace
  obtain ⟨t, ht, hterms⟩ := h.get hplace hplace'
  refine ⟨_, t, _, at?_eq_ok.mpr ⟨hi, hj, List.getElem?_eq_getElem hplace⟩, ht,
    at?_eq_ok.mpr ⟨hdims ▸ hi, hdims ▸ hj, ?_⟩, hterms⟩
  rw [hdims]
  exact List.getElem?_eq_getElem hplace'

/-- **Typing results.** Results that are typed together are there element by element, in the least
kind that holds them. -/
theorem elementwise_of_isTyped {g : Grid α} (h : g.IsTyped d) (hform : g.form = e.form)
    (hshape : g.shape = e.dims) (he : e.elements.length = e.dims.size) (hne : e.elements ≠ [])
    (hR : List.Forall₂ R e.elements g.elements)
    (hunique : ∀ s t u, R s t → R s u → t = u) :
    LeastElementwise R e d := by
  have hgne : g.elements ≠ [] := fun hnil => hne (by rwa [hnil, List.forall₂_nil_right_iff] at hR)
  refine ⟨?_, ?_⟩
  · refine elementwise_of_elements (h.form_eq.trans hform) (h.dims_eq.trans hshape) he ?_
    rw [h.elements_eq, List.forall₂_map_right_iff]
    exact hR.imp fun s t ht => ⟨t, ht, t.toMonomials_promote g.kind⟩
  · -- the results are the elements of the grid
    have hresults : ∀ t, Results R e t ↔ t ∈ g.elements := by
      intro t
      constructor
      · intro ht
        obtain ⟨s, hs, hst⟩ := ht
        obtain ⟨u, hu, hsu⟩ := exists_of_mem_forall₂ hR.flip hs
        exact hunique s t u hst hsu ▸ hu
      · intro ht
        exact exists_of_mem_forall₂ hR ht
    rw [h.kind_eq hgne, funext fun t => propext (hresults t)]
    exact Grid.isLeast_kind hgne

end One

/-! ## The calls -/

section Calls

variable [Zero α] [One α] {e : Expression α} {v : Variable α}

theorem elementwise_simplify [Add α] [BEq α] (he : e.check = .ok ()) :
    ∃ d, e.simplify.outcome = .ok d ∧ Elementwise (fun s t => s.simplify = .ok t) e d ∧
      d.kind = e.kind := by
  have hin := check_eq_ok.mp he
  refine ⟨e.simplified, simplify_eq_ok.mpr ⟨he, rfl⟩, ?_, e.kind_simplified⟩
  refine elementwise_of_elements e.form_simplified e.dims_simplified hin.length_eq ?_
  rw [elements_simplified, List.forall₂_map_right_iff, List.forall₂_same]
  intro s hs
  have hcheck : s.check = .ok () := Scalar.check_eq_ok.mpr (hin.each s hs)
  exact ⟨s.simplified, unit_bind_eq_ok.mpr ⟨hcheck, rfl⟩, rfl⟩

theorem elementwise_derivativeBy [NatCast α] [Mul α] (he : e.check = .ok ())
    (hv : v.id.isDefined = true) :
    ∃ d, (e.derivativeBy v).outcome = .ok d ∧
      LeastElementwise (fun s t => s.derivativeBy v = .ok t) e d := by
  have hin := check_eq_ok.mp he
  obtain ⟨d, hd, htyped⟩ := exists_derivativeBy he hv
  refine ⟨d, hd, elementwise_of_isTyped htyped rfl rfl hin.length_eq hin.ne_nil ?_ ?_⟩
  · show List.Forall₂ _ e.elements (e.elements.map (·.derivative v))
    rw [List.forall₂_map_right_iff, List.forall₂_same]
    intro s hs
    have hcheck : s.check = .ok () := Scalar.check_eq_ok.mpr (hin.each s hs)
    exact unit_bind_eq_ok.mpr
      ⟨hcheck, unit_bind_eq_ok.mpr ⟨Monomial.checkVariable_eq_ok.mpr hv, rfl⟩⟩
  · intro s t u ht hu
    exact Except.ok.inj (ht.symm.trans hu)

/-- Replacing a variable in a scalar expression is replacing it in the scalar. -/
theorem substitute_scalar_eq_ok [Add α] [Mul α] [BEq α] {s r t : Scalar α} :
    ((scalar s).substitute v (.scalar r)).outcome = .ok (.scalar t) ↔
      s.check = .ok () ∧ v.id.isDefined = true ∧ r.check = .ok () ∧ s.substitute v r = some t := by
  rw [substitute_eq_ok]
  refine and_congr_right' (and_congr_right' (and_congr_right' ?_))
  constructor
  · intro h
    obtain ⟨_, g, hr, hg, ht⟩ := h
    cases hr
    obtain ⟨hform, -, hts⟩ := Grid.mapM?_eq_some.mp hg
    obtain ⟨u, us, hu, -, helements⟩ := List.forall₂_cons_left_iff.mp hts
    rw [Grid.toExpression, hform, helements] at ht
    cases ht
    exact hu
  · intro h
    refine ⟨r, ⟨.scalar, .scalar, [t]⟩, rfl, ?_, rfl⟩
    exact Grid.mapM?_eq_some.mpr ⟨rfl, rfl, .cons h .nil⟩

theorem elementwise_substitute [Add α] [Mul α] [BEq α] {r : Scalar α} (he : e.check = .ok ())
    (hv : v.id.isDefined = true) (hr : r.check = .ok ()) :
    ∃ d, (e.substitute v (.scalar r)).outcome = .ok d ∧
      LeastElementwise
        (fun s t => ((scalar s).substitute v (.scalar r)).outcome = .ok (.scalar t)) e d := by
  have hin := check_eq_ok.mp he
  obtain ⟨g, hg, hshape, hgin⟩ := (Grid.factorsIn_ofExpression hin).exists_mapM? fun s hs =>
    Scalar.exists_substitute (hs.mono fun _ => .inr) (Scalar.check_eq_ok.mp hr)
  obtain ⟨d, hd, htyped⟩ := Grid.exists_toExpression hgin.toFits
  obtain ⟨hform, -, hts⟩ := Grid.mapM?_eq_some.mp hg
  refine ⟨d, substitute_eq_ok.mpr ⟨he, hv, hr, r, g, rfl, hg, hd⟩, ?_⟩
  refine elementwise_of_isTyped htyped hform hshape hin.length_eq hin.ne_nil ?_ ?_
  · have hboth := (List.forall₂_and_left _ _).mpr ⟨hin.each, hts⟩
    refine hboth.imp fun s t hst => substitute_scalar_eq_ok.mpr ⟨?_, hv, hr, hst.2⟩
    exact Scalar.check_eq_ok.mpr hst.1
  · intro s t u ht hu
    cases ht.symm.trans hu
    rfl

variable [Add α] [Neg α] [Mul α] {p : Point α}

/-- The values of the elements of an expression can be typed. -/
theorem fits_values (he : e.elements.length = e.dims.size) {xs : List α}
    (h : e.elements.mapM (·.evaluate p) = .ok xs) :
    Grid.Fits ⟨e.form, e.dims, xs.map .constant⟩ :=
  Grid.fits_of_length he (by rw [List.length_map, (mapM_eq_ok.mp h).length_eq])

theorem elementwise_evaluate {d : Expression α} (he : e.check = .ok ())
    (h : e.evaluate p = .ok d) :
    LeastElementwise (fun s t => ∃ x, s.evaluate p = .ok x ∧ t = .constant x) e d := by
  have hin := check_eq_ok.mp he
  rw [evaluate, unit_bind_eq_ok, bind_eq_ok] at h
  obtain ⟨-, xs, hxs, hd⟩ := h
  have hvalues := mapM_eq_ok.mp hxs
  have htyped := Grid.isTyped_of_toExpression (fits_values hin.length_eq hxs) hd
  refine elementwise_of_isTyped htyped rfl rfl hin.length_eq hin.ne_nil ?_ ?_
  · rw [List.forall₂_map_right_iff]
    exact hvalues.imp fun s x hx => ⟨x, hx, rfl⟩
  · intro s t u ht hu
    obtain ⟨x, hx, rfl⟩ := ht
    obtain ⟨y, hy, rfl⟩ := hu
    exact congrArg Scalar.constant (Except.ok.inj (hx.symm.trans hy))

/-- **Evaluation fails at the first element that has no value.** -/
theorem evaluate_eq_error_iff (he : e.check = .ok ()) {err : Error} :
    e.evaluate p = .error err ↔
      e.FirstWith (fun s => ∃ x, s.evaluate p = .ok x) (fun s => s.evaluate p = .error err) := by
  have hin := check_eq_ok.mp he
  rw [firstWith_iff hin.length_eq, ← mapM_eq_error_iff, evaluate, bind_eq_error, he]
  constructor
  · intro h
    rcases h with hcheck | ⟨_, -, h⟩
    · cases hcheck
    refine (bind_eq_error.mp h).resolve_right fun hvalues => ?_
    -- values can always be typed
    obtain ⟨xs, hxs, hd⟩ := hvalues
    obtain ⟨d, hd', -⟩ := Grid.exists_toExpression (fits_values hin.length_eq hxs)
    cases hd.symm.trans hd'
  · intro h
    exact .inr ⟨(), rfl, bind_eq_error.mpr (.inl h)⟩

/-- **Vectors and matrices are calculated with element by element.** A valid expression can be
simplified, has a derivative by a defined variable and can have that replaced by a valid scalar, and
at every position the result has the terms of the result for the element. So has its value at a
point, if there is one; evaluation fails exactly when it does for some element, with the cause of
the first of those by rows. Simplifying keeps the kind, and the other results are of the least kind
that holds those for the elements. -/
theorem operations_elementwise [NatCast α] [BEq α] {r : Scalar α} (he : e.check = .ok ())
    (hv : v.id.isDefined = true) (hr : r.check = .ok ()) (p : Point α) :
    (∃ d, e.simplify.outcome = .ok d ∧ Elementwise (fun s t => s.simplify = .ok t) e d ∧
      d.kind = e.kind) ∧
    (∃ d, (e.derivativeBy v).outcome = .ok d ∧
      LeastElementwise (fun s t => s.derivativeBy v = .ok t) e d) ∧
    (∃ d, (e.substitute v (.scalar r)).outcome = .ok d ∧ LeastElementwise
      (fun s t => ((scalar s).substitute v (.scalar r)).outcome = .ok (.scalar t)) e d) ∧
    (∀ d, e.evaluate p = .ok d →
      LeastElementwise (fun s t => ∃ x, s.evaluate p = .ok x ∧ t = .constant x) e d) ∧
    ((∃ err, e.evaluate p = .error err) ↔
      ∃ i j s err, e.at? i j = .ok s ∧ s.evaluate p = .error err) ∧
    ∀ err, e.evaluate p = .error err ↔
      e.FirstWith (fun s => ∃ x, s.evaluate p = .ok x) (fun s => s.evaluate p = .error err) := by
  refine ⟨elementwise_simplify he, elementwise_derivativeBy he hv, elementwise_substitute he hv hr,
    fun d hd => elementwise_evaluate he hd, ?_, fun err => evaluate_eq_error_iff he⟩
  constructor
  · intro h
    obtain ⟨err, herr⟩ := h
    obtain ⟨i, j, s, hs, hfails, -⟩ := (evaluate_eq_error_iff he).mp herr
    exact ⟨i, j, s, err, hs, hfails⟩
  · intro h
    obtain ⟨i, j, s, err, hs, hfails⟩ := h
    cases hd : e.evaluate p with
    | error err => exact ⟨err, rfl⟩
    | ok d =>
      -- a value has one for the element, too
      obtain ⟨hi, hj, -⟩ := at?_eq_ok.mp hs
      obtain ⟨t, _, _, ht, ⟨x, hx, -⟩, -⟩ := (elementwise_evaluate he hd).element i hi j hj
      cases hs.symm.trans ht
      cases hx.symm.trans hfails

/-- In a column of `x^2 + y` and `3`, the derivative of the second entry is lifted into the kind of
the first, and without values evaluation fails for `x`. -/
theorem operations_elementwise_column :
    let x : Variable ℤ := .numbered 0
    let y : Variable ℤ := .numbered 1
    let e : Expression ℤ := .vector .polynomial
      ⟨[⟨[⟨1, [x], [2]⟩, ⟨1, [y], [1]⟩]⟩, ⟨[⟨3, [], []⟩]⟩]⟩
    (e.check = .ok () ∧ x.id.isDefined = true ∧ (Scalar.variable y).check = .ok ()) ∧
      (∃ d u, (e.derivativeBy x).outcome = .ok d ∧ d.at? 1 0 = .ok u ∧
        u.toMonomials = [.constant 0]) ∧
      e.evaluate .empty = .error (.unassigned x.id) := by
  intro x y e
  have he : e.check = .ok () := by cbv
  have hx : x.id.isDefined = true := by decide
  have hy : (Scalar.variable y).check = .ok () := by cbv
  obtain ⟨-, ⟨d, hd, hderivative⟩, -, -, -, hfirst⟩ := operations_elementwise he hx hy .empty
  obtain ⟨s, t, u, hs, ht, hu, hterms⟩ := hderivative.element 1 (by decide) 0 (by decide)
  have hthree : e.at? 1 0 = .ok (.polynomial ⟨[⟨3, [], []⟩]⟩) := rfl
  cases hthree.symm.trans hs
  have hzero : Scalar.derivativeBy (.polynomial ⟨[⟨3, [], []⟩]⟩) x = .ok (.constant 0) := by cbv
  cases hzero.symm.trans ht
  refine ⟨⟨he, hx, hy⟩, ⟨d, u, hd, hu, hterms⟩, (hfirst _).mpr ?_⟩
  exact ⟨0, 0, _, rfl, by cbv, by omega⟩

end Calls

end Expression

end DecisionAlgebra
