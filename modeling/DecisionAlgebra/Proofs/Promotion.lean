import DecisionAlgebra.Proofs.Elementwise

/-!
# Promotion into a common kind

The elements of a vector or a matrix are kept as values of one kind, which is found by joining their
kinds one after another. The kinds are no chain: neither a constant nor a variable can be kept as
the other, and the two meet at the monomials. Still the order of the elements does not matter, since
what is joined to is the least kind into which all of them can be lifted, and there is only one.
Lifting into it never fails, and no element loses or gains a term.
-/

namespace DecisionAlgebra

variable {α : Type}

namespace Kind

/-- Of kinds that are joined only matters which of them occur. -/
theorem joinAll_congr {ks ls : List Kind} (h : ∀ k, k ∈ ks ↔ k ∈ ls) : joinAll ks = joinAll ls := by
  by_cases hne : ks = []
  · have hnil : ls = [] := List.eq_nil_iff_forall_not_mem.mpr fun k hk => by
      have hmem := (h k).mpr hk
      rw [hne] at hmem
      cases hmem
    rw [hne, hnil]
  · obtain ⟨k, hk⟩ := List.exists_mem_of_ne_nil ks hne
    have hne' : ls ≠ [] := List.ne_nil_of_mem ((h k).mp hk)
    exact Within.antisymm (joinAll_within hne fun a ha => within_joinAll ((h a).mp ha))
      (joinAll_within hne' fun a ha => within_joinAll ((h a).mpr ha))

/-- A kind that holds the values of another is not below it. -/
theorem Within.rank_le {a b : Kind} (h : a.Within b) : a.rank ≤ b.rank := by
  revert h
  unfold Within
  cases a <;> cases b <;> decide

/-- The kinds of constants and of variables hold no other values. -/
theorem Within.eq_of_rank_le_one {a b : Kind} (h : a.Within b) (hb : b.rank ≤ 1) : a = b := by
  revert h hb
  unfold Within
  cases a <;> cases b <;> decide

end Kind

namespace Grid

theorem kind_eq_of_perm {g : Grid α} {es : List (Scalar α)} (h : es.Perm g.elements) :
    kind { g with elements := es } = g.kind :=
  Kind.joinAll_congr fun _ => (h.map Scalar.kind).mem_iff

/-- Elements are kept as constants, or as variables, where all of them are. -/
theorem kind_eq_iff_of_rank_le_one {g : Grid α} (hne : g.elements ≠ []) {k : Kind}
    (hk : k.rank ≤ 1) : g.kind = k ↔ ∀ s ∈ g.elements, s.kind = k := by
  constructor
  · intro h s hs
    have hwithin : s.kind.Within g.kind := Kind.within_joinAll (List.mem_map_of_mem hs)
    exact (h ▸ hwithin).eq_of_rank_le_one hk
  · intro h
    obtain ⟨s, hs⟩ := List.exists_mem_of_ne_nil _ hne
    refine Kind.joinAll_eq (h s hs ▸ List.mem_map_of_mem hs) fun a ha => ?_
    obtain ⟨t, ht, rfl⟩ := List.mem_map.mp ha
    rw [h t ht]
    exact k.within_refl

variable [One α]

/-- **Elements are typed without loss, as little as need be, and whatever their order.** The kind of
a grid is that of the same elements in any order. It is the least one into which all of them can be
lifted, also by rank; it is the kind of variables only if all are variables, and that of constants
only if all are constants. A grid with as many elements as its shape asks for, at least one, is
typed: the expression has its form, shape and kind, and at every place the terms of the element that
was there. -/
theorem typed_without_loss {g : Grid α} (hg : g.Fits) (hne : g.elements ≠ []) :
    (∀ es : List (Scalar α), es.Perm g.elements → kind { g with elements := es } = g.kind) ∧
    g.kind.IsLeast (· ∈ g.elements) ∧
    (∀ l : Kind, (∀ s ∈ g.elements, ∃ x, s.toEntry l = .ok x) → g.kind.rank ≤ l.rank) ∧
    (g.kind = .variable ↔ ∀ s ∈ g.elements, s.kind = .variable) ∧
    (g.kind = .constant ↔ ∀ s ∈ g.elements, s.kind = .constant) ∧
    ∃ e, g.toExpression = .ok e ∧ e.form = g.form ∧ e.dims = g.shape ∧ e.kind = g.kind ∧
      e.elements.length = g.elements.length ∧
      ∀ (i : Nat) (s : Scalar α), g.elements[i]? = some s →
        ∃ t, e.elements[i]? = some t ∧ t.kind = g.kind ∧ t.toMonomials = s.toMonomials := by
  have hleast : g.kind.IsLeast (· ∈ g.elements) := isLeast_kind hne
  obtain ⟨e, he, htyped⟩ := exists_toExpression hg
  have hkind : e.kind = g.kind := htyped.kind_eq hne
  refine ⟨fun es hes => kind_eq_of_perm hes, hleast, fun l hl => (hleast.least l hl).rank_le,
    kind_eq_iff_of_rank_le_one hne (by decide), kind_eq_iff_of_rank_le_one hne (by decide), e, he,
    htyped.form_eq, htyped.dims_eq, hkind, htyped.length_eq, fun i s hs => ?_⟩
  obtain ⟨t, ht, hterms⟩ := htyped.exists_getElem? hs
  have hmem : t ∈ e.elements := List.mem_of_getElem? ht
  exact ⟨t, ht, (Expression.kind_of_mem_elements hmem).trans hkind, hterms⟩

/-- A constant and a variable in a column are kept as monomials, in either order, and the constant
keeps its one term. -/
theorem typed_without_loss_column :
    let x : Variable ℤ := ⟨⟨0⟩, .integer, 0, 1⟩
    let g : Grid ℤ := ⟨.vector, .column 2, [.constant 3, .variable x]⟩
    (g.Fits ∧ g.elements ≠ []) ∧
      kind { g with elements := [.variable x, .constant 3] } = .monomial ∧
      ∃ e t, g.toExpression = .ok e ∧ e.kind = .monomial ∧ e.elements[0]? = some t ∧
        t.kind = .monomial ∧ t.toMonomials = [.constant 3] := by
  intro x g
  have hg : g.Fits := ⟨rfl, nofun, fun _ => rfl⟩
  have hne : g.elements ≠ [] := List.cons_ne_nil _ _
  obtain ⟨hperm, -, -, -, -, e, he, -, -, hkind, -, hplaces⟩ := typed_without_loss hg hne
  obtain ⟨t, ht, htkind, hterms⟩ := hplaces 0 (.constant 3) rfl
  exact ⟨⟨hg, hne⟩, hperm _ (List.Perm.swap _ _ _), e, t, he, hkind, ht, htkind, hterms⟩

end Grid

end DecisionAlgebra
