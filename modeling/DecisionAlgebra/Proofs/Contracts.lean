import DecisionAlgebra.Proofs.Sequencing

/-!
# What a call ensures

A call ensures a property when it reads nothing outside of its bounds and every value it ends with
has the property. Calls made one after the other are judged step by step: what one ensures is what
the next may assume. A call whose input is refused ensures everything.
-/

namespace DecisionAlgebra

variable {ε α β : Type} {Q R : α → Prop}

namespace Attempt

/-- The call ends with a value or is refused, so it reads nothing outside of its bounds. -/
def Answers (x : Attempt ε α) : Prop := (∃ a, x = .ok a) ∨ ∃ e, x = refuse e

/-- Nothing is read outside of its bounds, and the property holds of the value if there is one. -/
structure Ensures (x : Attempt ε α) (Q : α → Prop) : Prop where
  inRange : x ≠ .error .outOfRange
  value : ∀ a, x = .ok a → Q a

theorem Ensures.answers {x : Attempt ε α} (h : Ensures x Q) : Answers x :=
  match x, h with
  | .ok a, _ => .inl ⟨a, rfl⟩
  | .error (.refused e), _ => .inr ⟨e, rfl⟩
  | .error .outOfRange, h => absurd rfl h.inRange

/-! ## Single steps -/

theorem ensures_ok {a : α} (h : Q a) : Ensures (.ok a : Attempt ε α) Q :=
  ⟨nofun, fun _ ha => Except.ok.inj ha ▸ h⟩

theorem ensures_refuse (e : ε) : Ensures (refuse e) Q :=
  ⟨nofun, nofun⟩

theorem ensures_checked {x : Except ε α} (h : ∀ a, x = .ok a → Q a) : Ensures (checked x) Q := by
  refine ⟨?_, fun a ha => h a (checked_eq_ok.mp ha)⟩
  cases x <;> exact nofun

theorem ensures_read {o : Option α} {a : α} (ho : o = some a) (h : Q a) :
    Ensures (read o : Attempt ε α) Q := by
  rw [ho]
  exact ensures_ok h

/-! ## One step after another -/

theorem Ensures.mono {x : Attempt ε α} (h : Ensures x Q) (hQR : ∀ a, Q a → R a) : Ensures x R :=
  ⟨h.inRange, fun a ha => hQR a (h.value a ha)⟩

theorem Ensures.bind {R : β → Prop} {x : Attempt ε α} {f : α → Attempt ε β} (hx : Ensures x Q)
    (hf : ∀ a, Q a → Ensures (f a) R) : Ensures (x >>= f) R := by
  cases x with
  | ok a => exact hf a (hx.value a rfl)
  | error e => exact ⟨fun h => hx.inRange (congrArg Except.error (Except.error.inj h)), nofun⟩

/-- What comes after a check may assume that it was passed. -/
theorem ensures_checked_bind {R : β → Prop} {x : Except ε α} {f : α → Attempt ε β}
    (hf : ∀ a, x = .ok a → Ensures (f a) R) : Ensures (checked x >>= f) R :=
  (ensures_checked fun _ h => h).bind hf

/-- What is found at a place can be named in what comes after. -/
theorem ensures_read_bind {R : β → Prop} {o : Option α} {a : α} {f : α → Attempt ε β}
    (ho : o = some a) (h : Ensures (f a) R) : Ensures (read o >>= f) R := by
  rw [ho]
  exact h

end Attempt

open Attempt (Ensures)

/-! ## Traced calls -/

namespace Traced

variable {R : β → Prop}

theorem ensures_bind {x : Traced α} {f : α → Traced β}
    (hx : Ensures x.outcome Q) (hf : ∀ a, Q a → Ensures (f a).outcome R) :
    Ensures (x >>= f).outcome R := by
  rw [outcome_bind]
  exact hx.bind hf

theorem ensures_checked_bind {x : Except Error α} {f : α → Traced β}
    (hf : ∀ a, x = .ok a → Ensures (f a).outcome R) :
    Ensures (quiet (Attempt.checked x) >>= f).outcome R := by
  rw [outcome_bind]
  exact Attempt.ensures_checked_bind hf

theorem ensures_read_bind {o : Option α} {a : α} {f : α → Traced β} (ho : o = some a)
    (h : Ensures (f a).outcome R) : Ensures (quiet (Attempt.read o) >>= f).outcome R := by
  rw [outcome_bind]
  exact Attempt.ensures_read_bind ho h

/-- Telling changes nothing else. -/
theorem ensures_emit_bind {e : Event} {f : Unit → Traced β} (h : Ensures (f ()).outcome R) :
    Ensures (emit e >>= f).outcome R := by
  rw [outcome_bind]
  exact h

theorem ensures_forM_emit (es : List Event) : Ensures (es.forM emit).outcome fun _ => True := by
  rw [outcome_forM_emit]
  exact Attempt.ensures_ok trivial

end Traced

end DecisionAlgebra
