import DecisionAlgebra.Outcome
import Mathlib.Data.List.Forall2

/-!
# What a successful sequence of calls says

Checks, attempts and traced calls are sequenced by `do`. A sequence has a value exactly when every
step has one, and a walk over a list has one exactly when the step has one at every place. The
lemmas here turn a success into the successes of its parts, so no later proof opens a `bind`.
-/

namespace DecisionAlgebra

variable {ε α β : Type}

/-! ## Checks -/

@[simp] theorem bind_eq_ok {x : Except ε α} {f : α → Except ε β} {b : β} :
    x >>= f = .ok b ↔ ∃ a, x = .ok a ∧ f a = .ok b := by
  cases x with
  | ok a =>
    constructor
    · intro h
      exact ⟨a, rfl, h⟩
    · intro hboth
      obtain ⟨_, ha, h⟩ := hboth
      cases ha
      exact h
  | error e =>
    constructor
    · intro h
      cases h
    · intro h
      obtain ⟨_, ha, _⟩ := h
      cases ha

theorem bind_eq_error {x : Except ε α} {f : α → Except ε β} {e : ε} :
    x >>= f = .error e ↔ x = .error e ∨ ∃ a, x = .ok a ∧ f a = .error e := by
  cases x with
  | ok a =>
    constructor
    · intro h
      exact .inr ⟨a, rfl, h⟩
    · intro h
      obtain ⟨_, ha, h⟩ := h.resolve_left nofun
      cases ha
      exact h
  | error d =>
    constructor
    · intro h
      exact .inl (congrArg Except.error (Except.error.inj h))
    · intro h
      have hd : (.error d : Except ε α) = .error e := h.resolve_right fun ⟨_, ha, _⟩ => nomatch ha
      exact congrArg Except.error (Except.error.inj hd)

@[simp] theorem pure_eq_ok {a b : α} : (pure a : Except ε α) = .ok b ↔ a = b := by
  simp [pure, Except.pure]

theorem unit_bind_eq_ok {x : Except ε Unit} {f : Unit → Except ε β} {b : β} :
    x >>= f = .ok b ↔ x = .ok () ∧ f () = .ok b := by
  rw [bind_eq_ok]
  exact Unique.exists_iff

/-- A list passes a check when all its members do. -/
theorem forM_eq_ok {xs : List α} {f : α → Except ε Unit} :
    xs.forM f = .ok () ↔ ∀ x ∈ xs, f x = .ok () := by
  induction xs with
  | nil => simp [List.forM, pure, Except.pure]
  | cons x xs ih =>
    show (f x >>= fun _ => xs.forM f) = .ok () ↔ _
    rw [bind_eq_ok, List.forall_mem_cons, ← ih]
    exact ⟨fun ⟨_, hx, hxs⟩ => ⟨hx, hxs⟩, fun ⟨hx, hxs⟩ => ⟨(), hx, hxs⟩⟩

/-- A list that fails a check fails it for a member. -/
theorem forM_eq_error {xs : List α} {f : α → Except ε Unit} {e : ε} (h : xs.forM f = .error e) :
    ∃ x ∈ xs, f x = .error e := by
  induction xs with
  | nil => cases h
  | cons x xs ih =>
    have hstep : (f x >>= fun _ => xs.forM f) = .error e := h
    cases hx : f x with
    | ok a =>
      rw [hx] at hstep
      obtain ⟨y, hy, hfy⟩ := ih hstep
      exact ⟨y, List.mem_cons_of_mem _ hy, hfy⟩
    | error d =>
      rw [hx] at hstep
      cases hstep
      exact ⟨x, List.mem_cons_self, hx⟩

/-! ## Walks over lists -/

theorem mapM_eq_ok {xs : List α} {f : α → Except ε β} {ys : List β} :
    xs.mapM f = .ok ys ↔ List.Forall₂ (fun x y => f x = .ok y) xs ys := by
  induction xs generalizing ys with
  | nil =>
    rw [List.mapM_nil, pure_eq_ok, List.forall₂_nil_left_iff]
    exact eq_comm
  | cons x xs ih =>
    rw [List.mapM_cons, bind_eq_ok, List.forall₂_cons_left_iff]
    refine exists_congr fun y => ?_
    rw [bind_eq_ok]
    constructor
    · intro hboth
      obtain ⟨hy, zs, hzs, h⟩ := hboth
      exact ⟨zs, hy, ih.mp hzs, (pure_eq_ok.mp h).symm⟩
    · intro h
      obtain ⟨zs, hy, hzs, rfl⟩ := h
      exact ⟨hy, zs, ih.mpr hzs, pure_eq_ok.mpr rfl⟩

/-- The first member with one property, after members with another one, is the head or comes after
the head. -/
theorem exists_first_cons {A B : α → Prop} {x : α} {xs : List α} :
    (∃ before y after, x :: xs = before ++ y :: after ∧ (∀ z ∈ before, A z) ∧ B y) ↔
      B x ∨ A x ∧ ∃ before y after, xs = before ++ y :: after ∧ (∀ z ∈ before, A z) ∧ B y := by
  constructor
  · intro h
    obtain ⟨before, y, after, hxs, hbefore, hy⟩ := h
    cases before with
    | nil =>
      obtain ⟨rfl, rfl⟩ := List.cons.inj hxs
      exact .inl hy
    | cons z before =>
      obtain ⟨rfl, rfl⟩ := List.cons.inj hxs
      obtain ⟨hz, hrest⟩ := List.forall_mem_cons.mp hbefore
      exact .inr ⟨hz, before, y, after, rfl, hrest, hy⟩
  · intro h
    rcases h with hx | ⟨hx, before, y, after, rfl, hbefore, hy⟩
    · exact ⟨[], x, xs, rfl, nofun, hx⟩
    · exact ⟨x :: before, y, after, rfl, List.forall_mem_cons.mpr ⟨hx, hbefore⟩, hy⟩

/-- A walk fails at the first member at which its step fails. -/
theorem mapM_eq_error_iff {xs : List α} {f : α → Except ε β} {e : ε} :
    xs.mapM f = .error e ↔ ∃ before x after, xs = before ++ x :: after ∧
      (∀ y ∈ before, ∃ b, f y = .ok b) ∧ f x = .error e := by
  induction xs with
  | nil =>
    refine ⟨nofun, fun h => ?_⟩
    obtain ⟨before, x, after, hxs, -⟩ := h
    simp at hxs
  | cons x xs ih =>
    -- the step fails at the head, or it does not and the walk over the rest fails
    have hcons : (x :: xs).mapM f = .error e ↔
        f x = .error e ∨ (∃ y, f x = .ok y) ∧ xs.mapM f = .error e := by
      rw [List.mapM_cons, bind_eq_error]
      refine or_congr_right ⟨fun h => ?_, fun h => ?_⟩
      · obtain ⟨y, hy, h⟩ := h
        rcases bind_eq_error.mp h with hxs | ⟨ys, -, h⟩
        · exact ⟨⟨y, hy⟩, hxs⟩
        · cases h
      · obtain ⟨⟨y, hy⟩, hxs⟩ := h
        exact ⟨y, hy, bind_eq_error.mpr (.inl hxs)⟩
    rw [hcons, ih, exists_first_cons]

/-- A walk that fails does so at a member. -/
theorem mapM_eq_error {xs : List α} {f : α → Except ε β} {e : ε} (h : xs.mapM f = .error e) :
    ∃ x ∈ xs, f x = .error e := by
  obtain ⟨before, x, after, rfl, -, hx⟩ := mapM_eq_error_iff.mp h
  exact ⟨x, List.mem_append_right _ List.mem_cons_self, hx⟩

theorem mapM_eq_some {xs : List α} {f : α → Option β} {ys : List β} :
    xs.mapM f = some ys ↔ List.Forall₂ (fun x y => f x = some y) xs ys := by
  induction xs generalizing ys with
  | nil =>
    rw [List.mapM_nil, List.forall₂_nil_left_iff]
    exact ⟨fun h => (Option.some.inj h).symm, fun h => congrArg some h.symm⟩
  | cons x xs ih =>
    rw [List.mapM_cons, Option.bind_eq_bind, Option.bind_eq_some_iff, List.forall₂_cons_left_iff]
    refine exists_congr fun y => ?_
    rw [Option.bind_eq_bind, Option.bind_eq_some_iff]
    constructor
    · intro hboth
      obtain ⟨hy, zs, hzs, h⟩ := hboth
      exact ⟨zs, hy, ih.mp hzs, (Option.some.inj h).symm⟩
    · intro h
      obtain ⟨zs, hy, hzs, rfl⟩ := h
      exact ⟨hy, zs, ih.mpr hzs, rfl⟩

/-- Every member of the second of two related lists has a member of the first that is related to
it. -/
theorem exists_of_mem_forall₂ {R : α → β → Prop} {xs : List α} {ys : List β}
    (h : List.Forall₂ R xs ys) {y : β} (hy : y ∈ ys) : ∃ x ∈ xs, R x y := by
  induction h with
  | nil => cases hy
  | @cons x z xs ys hxz _ ih =>
    rcases List.mem_cons.mp hy with rfl | hy
    · exact ⟨x, List.mem_cons_self, hxz⟩
    · obtain ⟨w, hw, hR⟩ := ih hy
      exact ⟨w, List.mem_cons_of_mem _ hw, hR⟩

/-- A relation that every member of a list has to something relates the list to a list. -/
theorem exists_forall₂ {R : α → β → Prop} {xs : List α} (h : ∀ x ∈ xs, ∃ y, R x y) :
    ∃ ys, List.Forall₂ R xs ys := by
  induction xs with
  | nil => exact ⟨[], .nil⟩
  | cons x xs ih =>
    obtain ⟨y, hy⟩ := h x List.mem_cons_self
    obtain ⟨ys, hys⟩ := ih fun z hz => h z (List.mem_cons_of_mem _ hz)
    exact ⟨y :: ys, .cons hy hys⟩

/-- A walk whose step has an answer of a property at every place finds an answer for each. -/
theorem exists_mapM_eq_some {xs : List α} {f : α → Option β} {Q : β → Prop}
    (h : ∀ x ∈ xs, ∃ y, f x = some y ∧ Q y) :
    ∃ ys, xs.mapM f = some ys ∧ ys.length = xs.length ∧ ∀ y ∈ ys, Q y := by
  obtain ⟨ys, hys⟩ := exists_forall₂ h
  refine ⟨ys, mapM_eq_some.mpr (hys.imp fun _ _ h => h.1), hys.length_eq.symm, fun y hy => ?_⟩
  obtain ⟨x, -, hxy⟩ := exists_of_mem_forall₂ hys hy
  exact hxy.2

theorem map_eq_map_of_forall₂ {γ : Type} {f : α → γ} {g : β → γ} {xs : List α} {ys : List β}
    (h : List.Forall₂ (fun x y => g y = f x) xs ys) : ys.map g = xs.map f := by
  induction h with
  | nil => rfl
  | cons hxy _ ih => rw [List.map_cons, List.map_cons, hxy, ih]

theorem exists_mapM_eq_ok {xs : List α} {f : α → Except ε β} :
    (∃ ys, xs.mapM f = .ok ys) ↔ ∀ x ∈ xs, ∃ y, f x = .ok y := by
  constructor
  · intro hboth x hx
    obtain ⟨ys, h⟩ := hboth
    obtain ⟨i, hi, rfl⟩ := List.getElem_of_mem hx
    have hf := mapM_eq_ok.mp h
    have hi' : i < ys.length := hf.length_eq ▸ hi
    exact ⟨ys[i], hf.get hi hi'⟩
  · intro h
    obtain ⟨ys, hys⟩ := exists_forall₂ h
    exact ⟨ys, mapM_eq_ok.mpr hys⟩

/-- A walk whose step has a known value under a known condition. -/
theorem mapM_eq_ok_iff_map {f : α → Except ε β} {Q : α → Prop} {g : α → β} (xs : List α)
    (h : ∀ x ∈ xs, ∀ y, f x = .ok y ↔ Q x ∧ y = g x) :
    ∀ ys : List β, xs.mapM f = .ok ys ↔ (∀ x ∈ xs, Q x) ∧ ys = xs.map g := by
  induction xs with
  | nil =>
    intro ys
    rw [List.mapM_nil, pure_eq_ok, List.map_nil]
    exact ⟨fun hnil => ⟨nofun, hnil.symm⟩, fun hnil => hnil.2.symm⟩
  | cons x xs ih =>
    intro ys
    have ih' := ih fun z hz => h z (List.mem_cons_of_mem _ hz)
    rw [List.mapM_cons, List.forall_mem_cons, List.map_cons]
    simp only [bind_eq_ok, pure_eq_ok, h x List.mem_cons_self, ih']
    constructor
    · intro hsteps
      obtain ⟨_, ⟨hx, rfl⟩, _, ⟨hxs, rfl⟩, rfl⟩ := hsteps
      exact ⟨⟨hx, hxs⟩, rfl⟩
    · intro hmap
      obtain ⟨⟨hx, hxs⟩, rfl⟩ := hmap
      exact ⟨_, ⟨hx, rfl⟩, _, ⟨hxs, rfl⟩, rfl⟩

/-! ## Attempts and traced calls -/

namespace Attempt

@[simp] theorem checked_eq_ok {x : Except ε α} {a : α} : checked x = .ok a ↔ x = .ok a := by
  cases x <;> simp [checked]

@[simp] theorem read_eq_ok {o : Option α} {a : α} :
    (read o : Attempt ε α) = .ok a ↔ o = some a := by
  cases o <;> simp [read]

/-- A walk that makes something of the results of checks has the results of a walk over the checks.
-/
theorem mapM_checked_map {γ : Type} {f : α → Except ε β} {g : β → γ} {h : α → Attempt ε γ}
    {xs : List α} (hstep : ∀ x ∈ xs, h x = checked ((f x).map g)) :
    xs.mapM h = checked ((xs.mapM f).map (List.map g)) := by
  induction xs with
  | nil => rfl
  | cons x xs ih =>
    rw [List.mapM_cons, List.mapM_cons, hstep x List.mem_cons_self,
      ih fun y hy => hstep y (List.mem_cons_of_mem _ hy)]
    cases f x with
    | error e => rfl
    | ok y => cases xs.mapM f <;> rfl

@[simp] theorem refuse_ne_ok {e : ε} {a : α} : (refuse e : Attempt ε α) ≠ .ok a := by
  simp [refuse]

end Attempt

namespace Traced

@[simp] theorem outcome_pure (a : α) : (pure a : Traced α).outcome = .ok a := rfl

@[simp] theorem outcome_quiet (o : Outcome α) : (quiet o).outcome = o := rfl

@[simp] theorem outcome_emit (e : Event) : (emit e).outcome = .ok () := rfl

@[simp] theorem outcome_refuse (e : Error) : (refuse e : Traced α).outcome = .error (.refused e) :=
  rfl

@[simp] theorem outcome_bind (x : Traced α) (f : α → Traced β) :
    (x >>= f).outcome = x.outcome >>= fun a => (f a).outcome := by
  show (andThen x f).outcome = _
  unfold andThen
  cases x.outcome <;> rfl

/-- Telling ends well. -/
theorem outcome_forM_emit (es : List Event) : (es.forM emit).outcome = .ok () := by
  induction es with
  | nil => rfl
  | cons e es ih =>
    show (emit e >>= fun _ => es.forM emit).outcome = _
    rw [outcome_bind, outcome_emit]
    exact ih

end Traced

end DecisionAlgebra
