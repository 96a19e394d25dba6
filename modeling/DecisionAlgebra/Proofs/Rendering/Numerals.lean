import DecisionAlgebra.Proofs.Binary64
import DecisionAlgebra.Proofs.Rendering.Separators

/-!
# How numbers are written

A numeral has digits, a point, a minus and the letters of `NaN` and `inf`, and none of the
characters by which terms, sums and lists are put together. `Legible` says this of a type of
numbers, and that the two coefficients which are left out before factors, one and minus one, are
each written in one way. 64-bit numbers are legible.
-/

namespace DecisionAlgebra

/-! ## Digits -/

/-- The characters of numerals. -/
def isNumeralChar : Char → Bool := orAmong Char.isDigit ['.', '-', 'N', 'a', 'i', 'n', 'f']

theorem spelledIn_nat (n : Nat) : SpelledIn Char.isDigit (toString n) := by
  intro c hc
  have hmem : c ∈ Nat.toDigits 10 n := by
    rw [← Nat.toList_repr]
    exact hc
  exact Nat.isDigit_of_mem_toDigits (by decide) (by decide) hmem

theorem toString_nat_inj {m n : Nat} (h : toString m = toString n) : m = n := by
  have hdigits : Nat.toDigits 10 m = Nat.toDigits 10 n := by
    rw [← Nat.toList_repr, ← Nat.toList_repr]
    exact congrArg String.toList h
  rw [← Nat.ofDigitChars_ten_toDigits (n := m), hdigits, Nat.ofDigitChars_ten_toDigits]

theorem isNumeralChar_of_isDigit (c : Char) (h : c.isDigit = true) : isNumeralChar c = true := by
  rw [isNumeralChar, orAmong, h, Bool.true_or]

/-- A decimal is written with digits and at most a point. -/
theorem Decimal.spelledIn_positional (d : Decimal) : SpelledIn isNumeralChar d.positional := by
  have hdigits : ∀ c ∈ Nat.toDigits 10 d.digits, isNumeralChar c = true := fun c hc =>
    isNumeralChar_of_isDigit c (Nat.isDigit_of_mem_toDigits (by decide) (by decide) hc)
  have hzeros : ∀ {n : Nat}, ∀ c ∈ List.replicate n '0', isNumeralChar c = true := by
    intro n c hc
    rw [List.eq_of_mem_replicate hc]
    rfl
  intro c hc
  unfold positional at hc
  split at hc
  next =>
    rw [String.toList_ofList, List.mem_append] at hc
    exact hc.elim (hdigits c) (hzeros c)
  next =>
    have hpadded : ∀ {n : Nat}, ∀ c ∈ List.replicate n '0' ++ Nat.toDigits 10 d.digits,
        isNumeralChar c = true :=
      fun c hc => (List.mem_append.mp hc).elim (hzeros c) (hdigits c)
    rw [String.toList_ofList, List.mem_append, List.mem_cons] at hc
    rcases hc with htake | rfl | hdrop
    · exact hpadded c (List.mem_of_mem_take htake)
    · rfl
    · exact hpadded c (List.mem_of_mem_drop hdrop)

theorem spelledIn_floatText (x : Float) : SpelledIn isNumeralChar (floatText x) := by
  have hsize : SpelledIn isNumeralChar
      (if x.isInf then "inf" else (Decimal.shortest x).positional) := by
    split
    next => decide
    next => exact (Decimal.shortest x).spelledIn_positional
  unfold floatText
  split
  next => decide
  next =>
    dsimp only
    split
    next => exact SpelledIn.append (by decide) hsize
    next => exact hsize

/-! ## Legible numbers -/

/-- Numerals have no character but those of numerals. What compares equal to one, or to minus one,
is written like it, and the two differ. -/
class Legible (α : Type) [One α] [Neg α] [BEq α] [Numeral α] : Prop where
  spelledIn : ∀ c : α, SpelledIn isNumeralChar (numeral c)
  numeral_of_beq_one : ∀ c : α, (c == 1) = true → numeral c = numeral (1 : α)
  numeral_of_beq_neg_one : ∀ c : α, (c == -1) = true → numeral c = numeral (-1 : α)
  one_beq_one : ((1 : α) == 1) = true
  one_beq_neg_one : ((1 : α) == -1) = false

instance Binary64.instLegible : Legible Float where
  spelledIn := spelledIn_floatText
  numeral_of_beq_one := by
    intro c hc
    have hone : (1 : Float).toModel.unpack = .finite .positive (2 ^ 52) (-52) (by decide) := rfl
    rw [eq_of_beq hone hc]
  numeral_of_beq_neg_one := by
    intro c hc
    have hone : (-1 : Float).toModel.unpack = .finite .negative (2 ^ 52) (-52) (by decide) := rfl
    rw [eq_of_beq hone hc]
  one_beq_one := by decide
  one_beq_neg_one := by decide

end DecisionAlgebra
