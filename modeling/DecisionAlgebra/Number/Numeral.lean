import DecisionAlgebra.Number.Literal

/-!
# What the library asks of its numbers beyond arithmetic

Arithmetic comes through the standard operation classes. Two more abilities are named here: being
written, and having infinite values. 64-bit floats have both.
-/

namespace DecisionAlgebra

/-- Numbers that can be written. -/
class Numeral (α : Type) where
  /-- The text of a number. -/
  numeral : α → String

export Numeral (numeral)

/-- Numbers with two infinite values, and a test for the ordinary ones. -/
class Extended (α : Type) where
  /-- Above every finite number. -/
  infinity : α
  /-- Below every finite number. -/
  negInfinity : α
  /-- Neither infinite nor the result of an undefined operation. -/
  isFinite : α → Bool

instance Binary64.instNatCast : NatCast Float := ⟨fun n => Binary64.nearest false n 1⟩

instance Binary64.instIntCast : IntCast Float := ⟨fun n => Binary64.nearest (n < 0) n.natAbs 1⟩

instance Binary64.instNumeral : Numeral Float := ⟨floatText⟩

instance Binary64.instExtended : Extended Float where
  infinity := 1 / 0
  negInfinity := -1 / 0
  isFinite := Float.isFinite

end DecisionAlgebra
