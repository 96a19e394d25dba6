import DecisionAlgebra.Number.Numeral
import Mathlib

/-!
# Binary floating-point numbers by their parts

A 64-bit number is undefined, infinite, zero, or has a sign, a significand and an exponent. Numbers
with the same parts are the same. Those that compare equal have the same parts, too, except for the
two zeros.
-/

namespace DecisionAlgebra.Binary64

open Float.Model (UnpackedFloat)

/-- A number is known by its sign, significand and exponent. -/
theorem eq_of_unpack_eq {x y : Float} (h : x.toModel.unpack = y.toModel.unpack) : x = y := by
  obtain ⟨⟨⟨xbits⟩, hx⟩⟩ := x
  obtain ⟨⟨⟨ybits⟩, hy⟩⟩ := y
  obtain rfl : xbits = ybits := (UnpackedFloat.unpack_inj_of_valid hx hy).mp h
  rfl

/-- What is neither finite nor undefined is infinite, with one sign or the other. -/
theorem isFinite_or_infinite {x : Float} (hx : x.isNaN = false) :
    Extended.isFinite x = true ∨ x = Extended.infinity ∨ x = Extended.negInfinity := by
  have hnan : x.toModel.unpack.isNaN = false := hx
  show x.toModel.unpack.isFinite = true ∨ _
  cases hunpack : x.toModel.unpack with
  | notANumber =>
    rw [hunpack] at hnan
    cases hnan
  | infinity sign =>
    cases sign with
    | positive => exact .inr (.inl (eq_of_unpack_eq hunpack))
    | negative => exact .inr (.inr (eq_of_unpack_eq hunpack))
  | zero sign => exact .inl rfl
  | finite sign significand exponent hpos => exact .inl rfl

theorem compare_then_eq_eq {e f : Int} {m n : Nat} :
    (compare e f).then (compare m n) = .eq ↔ e = f ∧ m = n := by
  rw [Ordering.then_eq_eq, compare_eq_iff_eq, compare_eq_iff_eq]

/-- Parts of a finite number that is not zero, compared with equal result, are equal. -/
theorem eq_of_unpacked_beq {u : UnpackedFloat} {sign : UnpackedFloat.Sign} {m : Nat} {e : Int}
    {hm : 0 < m} (h : u.beq (.finite sign m e hm) = true) : u = .finite sign m e hm := by
  have hcompare : u.compare (.finite sign m e hm) = some .eq := beq_iff_eq.mp h
  cases u with
  | notANumber => cases hcompare
  | infinity s => cases s <;> cases sign <;> cases hcompare
  | zero s => cases sign <;> cases hcompare
  | finite s n f hn =>
    cases s with
    | positive =>
      cases sign with
      | negative => cases hcompare
      | positive =>
        obtain ⟨rfl, rfl⟩ := compare_then_eq_eq.mp (Option.some.inj hcompare)
        rfl
    | negative =>
      cases sign with
      | positive => cases hcompare
      | negative =>
        have hthen := Ordering.swap_eq_eq.mp (Option.some.inj hcompare)
        obtain ⟨rfl, rfl⟩ := compare_then_eq_eq.mp hthen
        rfl

/-- What compares equal to a finite number that is not zero is that number. -/
theorem eq_of_beq {x y : Float} {sign : UnpackedFloat.Sign} {m : Nat} {e : Int} {hm : 0 < m}
    (hy : y.toModel.unpack = .finite sign m e hm) (h : (x == y) = true) : x = y := by
  have hbeq : x.toModel.unpack.beq y.toModel.unpack = true := h
  rw [hy] at hbeq
  exact eq_of_unpack_eq ((eq_of_unpacked_beq hbeq).trans hy.symm)

end DecisionAlgebra.Binary64
