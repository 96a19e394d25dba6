import Mathlib.Data.List.Forall2

/-!
# Texts that can be taken apart

Items joined by a separator can be told from the joined text when some character of the separator is
in none of the items. `intercalate_inj` says so by the first such character: what stands before it
is the first item and the front of the separator, what stands after it is the rest of the separator
and the other items, and so on along the list.

Which characters a text has is said by a test on characters, `SpelledIn`, so that a character can be
shown to be absent by evaluating the test.
-/

namespace DecisionAlgebra

/-! ## Lists with a separator -/

section Lists

variable {α β γ : Type}

/-- What stands before and after the first of a character. -/
theorem append_cons_inj {z : γ} {a b c d : List γ} (ha : z ∉ a) (hc : z ∉ c)
    (h : a ++ z :: b = c ++ z :: d) : a = c ∧ b = d := by
  induction a generalizing c with
  | nil =>
    cases c with
    | nil => exact ⟨rfl, (List.cons.inj h).2⟩
    | cons y c => exact absurd ((List.cons.inj h).1 ▸ List.mem_cons_self) hc
  | cons x a ih =>
    cases c with
    | nil => exact absurd ((List.cons.inj h).1 ▸ List.mem_cons_self) ha
    | cons y c =>
      obtain ⟨rfl, hrest⟩ := List.cons.inj h
      obtain ⟨rfl, hbd⟩ := ih (List.not_mem_of_not_mem_cons ha) (List.not_mem_of_not_mem_cons hc)
        hrest
      exact ⟨rfl, hbd⟩

variable {z : γ} {u w : List γ}

/-- The first item is followed by the separator, of which an element is singled out. -/
theorem intercalate_split (x x' : List γ) (xs : List (List γ)) :
    (u ++ z :: w).intercalate (x :: x' :: xs) =
      (x ++ u) ++ z :: (w ++ (u ++ z :: w).intercalate (x' :: xs)) := by
  rw [List.intercalate_cons_cons]
  simp only [List.append_assoc, List.cons_append]

/-- Two items put the separator into the joined list. -/
theorem ne_intercalate {x y y' : List γ} {ys : List (List γ)} (hx : z ∉ x) :
    x ≠ (u ++ z :: w).intercalate (y :: y' :: ys) := by
  intro h
  rw [intercalate_split] at h
  exact hx (h ▸ List.mem_append_right _ List.mem_cons_self)

/-- **Joined items are known from the joined list** when the separator has an element that none of
them has. -/
theorem intercalate_inj {xs ys : List (List γ)} (hu : z ∉ u) (hxs : ∀ x ∈ xs, z ∉ x)
    (hys : ∀ y ∈ ys, z ∉ y) (hxne : xs ≠ []) (hyne : ys ≠ [])
    (h : (u ++ z :: w).intercalate xs = (u ++ z :: w).intercalate ys) : xs = ys := by
  induction xs generalizing ys with
  | nil => exact absurd rfl hxne
  | cons x xs ih =>
    cases ys with
    | nil => exact absurd rfl hyne
    | cons y ys =>
      obtain ⟨hx, hxs⟩ := List.forall_mem_cons.mp hxs
      obtain ⟨hy, hys⟩ := List.forall_mem_cons.mp hys
      cases xs with
      | nil =>
        rw [List.intercalate_singleton] at h
        cases ys with
        | nil => rw [h, List.intercalate_singleton]
        | cons y' ys => exact absurd h (ne_intercalate hx)
      | cons x' xs =>
        cases ys with
        | nil =>
          rw [List.intercalate_singleton] at h
          exact absurd h.symm (ne_intercalate hy)
        | cons y' ys =>
          rw [intercalate_split, intercalate_split] at h
          have hxu : z ∉ x ++ u := fun hz => (List.mem_append.mp hz).elim hx hu
          have hyu : z ∉ y ++ u := fun hz => (List.mem_append.mp hz).elim hy hu
          obtain ⟨hhead, htail⟩ := append_cons_inj hxu hyu h
          have hrest := ih hxs hys (List.cons_ne_nil _ _) (List.cons_ne_nil _ _)
            (List.append_cancel_left htail)
          rw [List.append_cancel_right hhead, hrest]

/-- Brackets around every item are brackets around the whole and a part of the separator. -/
theorem intercalate_bracketed {l r sep : List γ} {xs : List (List γ)} (h : xs ≠ []) :
    sep.intercalate (xs.map fun x => l ++ x ++ r) = l ++ (r ++ sep ++ l).intercalate xs ++ r := by
  induction xs with
  | nil => exact absurd rfl h
  | cons x xs ih =>
    cases xs with
    | nil => simp only [List.map_cons, List.map_nil, List.intercalate_singleton]
    | cons y ys =>
      have hrest := ih (List.cons_ne_nil _ _)
      rw [List.map_cons] at hrest
      rw [List.map_cons, List.map_cons, List.intercalate_cons_cons, List.intercalate_cons_cons,
        hrest]
      simp only [List.append_assoc]

/-- What holds of the members of a separator and of every item holds of those of the joined list. -/
theorem forall_mem_intercalate {p : γ → Prop} {sep : List γ} {xs : List (List γ)}
    (hsep : ∀ c ∈ sep, p c) (hxs : ∀ x ∈ xs, ∀ c ∈ x, p c) : ∀ c ∈ sep.intercalate xs, p c := by
  induction xs with
  | nil => exact fun c hc => absurd hc List.not_mem_nil
  | cons x xs ih =>
    obtain ⟨hx, hxs⟩ := List.forall_mem_cons.mp hxs
    cases xs with
    | nil =>
      rw [List.intercalate_singleton]
      exact hx
    | cons y ys =>
      intro c hc
      rw [List.intercalate_cons_cons, List.mem_append, List.mem_append] at hc
      rcases hc with (hitem | hbetween) | hrest
      · exact hx c hitem
      · exact hsep c hbetween
      · exact ih hxs c hrest

/-- Lists with equal images are related member by member, by what equal images of members imply. -/
theorem forall₂_of_map_eq {f : α → γ} {g : β → γ} {R : α → β → Prop} {xs : List α} {ys : List β}
    (hR : ∀ x ∈ xs, ∀ y ∈ ys, f x = g y → R x y) (h : xs.map f = ys.map g) :
    List.Forall₂ R xs ys := by
  induction xs generalizing ys with
  | nil =>
    obtain rfl : ys = [] := List.map_eq_nil_iff.mp h.symm
    exact .nil
  | cons x xs ih =>
    cases ys with
    | nil => cases h
    | cons y ys =>
      rw [List.map_cons, List.map_cons, List.cons.injEq] at h
      refine .cons (hR x List.mem_cons_self y List.mem_cons_self h.1) (ih ?_ h.2)
      exact fun v hv w hw => hR v (List.mem_cons_of_mem _ hv) w (List.mem_cons_of_mem _ hw)

end Lists

/-! ## Texts -/

/-- All characters of a text pass the test. -/
def SpelledIn (p : Char → Bool) (s : String) : Prop := ∀ c ∈ s.toList, p c = true

section Texts

variable {β : Type} {p q : Char → Bool} {s t sep : String} {ss : List String}

/-- Decided along the text; the instance found by itself may go through all characters there are. -/
instance (p : Char → Bool) (s : String) : Decidable (SpelledIn p s) :=
  List.decidableBAll (fun c => p c = true) s.toList

theorem SpelledIn.mono (h : SpelledIn p s) (hpq : ∀ c, p c = true → q c = true) : SpelledIn q s :=
  fun c hc => hpq c (h c hc)

/-- The test is passed, or the character is one of a list. -/
def orAmong (p : Char → Bool) (cs : List Char) (c : Char) : Bool := p c || c ∈ cs

theorem SpelledIn.orAmong (h : SpelledIn p s) (cs : List Char) :
    SpelledIn (DecisionAlgebra.orAmong p cs) s :=
  h.mono fun c hc => by rw [DecisionAlgebra.orAmong, hc, Bool.true_or]

theorem SpelledIn.notMem (h : SpelledIn p s) {z : Char} (hz : p z = false) : z ∉ s.toList :=
  fun hmem => Bool.false_ne_true (hz.symm.trans (h z hmem))

theorem SpelledIn.append (hs : SpelledIn p s) (ht : SpelledIn p t) : SpelledIn p (s ++ t) := by
  intro c hc
  rw [String.toList_append, List.mem_append] at hc
  exact hc.elim (hs c) (ht c)

theorem SpelledIn.intercalate {f : β → String} {xs : List β} (hsep : SpelledIn p sep)
    (hxs : ∀ x ∈ xs, SpelledIn p (f x)) : SpelledIn p (sep.intercalate (xs.map f)) := by
  intro c hc
  rw [String.toList_intercalate] at hc
  refine forall_mem_intercalate hsep (List.forall_mem_map.mpr ?_) c hc
  exact List.forall_mem_map.mpr hxs

/-- Written items are known from the joined text as far as each is known from its own, when the
separator has a character that none of their texts has. -/
theorem forall₂_of_intercalate_eq {z : Char} {f : β → String} {R : β → β → Prop} {xs ys : List β}
    (u w : List Char) (hsep : sep.toList = u ++ z :: w) (hu : z ∉ u) (hp : p z = false)
    (hxs : ∀ x ∈ xs, SpelledIn p (f x)) (hys : ∀ y ∈ ys, SpelledIn p (f y)) (hxne : xs ≠ [])
    (hyne : ys ≠ []) (hR : ∀ x ∈ xs, ∀ y ∈ ys, f x = f y → R x y)
    (h : sep.intercalate (xs.map f) = sep.intercalate (ys.map f)) : List.Forall₂ R xs ys := by
  have hchars := congrArg String.toList h
  rw [String.toList_intercalate, String.toList_intercalate, hsep, List.map_map, List.map_map]
    at hchars
  have habsent : ∀ {zs : List β}, (∀ v ∈ zs, SpelledIn p (f v)) →
      ∀ v ∈ zs.map (String.toList ∘ f), z ∉ v :=
    fun hzs => List.forall_mem_map.mpr fun v hv => (hzs v hv).notMem hp
  have hlists := intercalate_inj hu (habsent hxs) (habsent hys)
    (fun hnil => hxne (List.map_eq_nil_iff.mp hnil))
    (fun hnil => hyne (List.map_eq_nil_iff.mp hnil)) hchars
  exact forall₂_of_map_eq (fun x hx y hy hxy => hR x hx y hy (String.toList_inj.mp hxy)) hlists

/-- Brackets around every text are brackets around the whole and a part of the separator. -/
theorem texts_bracketed (l r : String) (hne : ss ≠ []) :
    sep.intercalate (ss.map fun s => l ++ s ++ r) = l ++ (r ++ sep ++ l).intercalate ss ++ r := by
  apply String.toList_inj.mp
  have hne' : ss.map String.toList ≠ [] := fun hnil => hne (List.map_eq_nil_iff.mp hnil)
  have hbracketed := @intercalate_bracketed Char l.toList r.toList sep.toList _ hne'
  simp only [String.toList_intercalate, String.toList_append, List.map_map] at hbracketed ⊢
  rw [← hbracketed]
  refine congrArg _ (List.map_congr_left fun s _ => ?_)
  simp only [Function.comp_apply, String.toList_append]

end Texts

end DecisionAlgebra
