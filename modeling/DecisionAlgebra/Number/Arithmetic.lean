/-!
# Sums, powers and inner products in a fixed order of operations

The numbers of the library are any type with the operations a definition asks for; no law is
assumed here. Rounded numbers do not associate, so each of these three folds fixes the order in
which it combines its terms, and over exact numbers that order is invisible.
-/

namespace DecisionAlgebra

variable {α : Type}

/-- The sum of a list from left to right, started at negative zero: `-0` is the unit of rounded
addition that keeps the sign of a zero sum. -/
def total [Zero α] [Neg α] [Add α] (xs : List α) : α :=
  xs.foldl (· + ·) (-0)

/-! ## Powers -/

/-- `r * a ^ n` by repeated squaring: a factor is taken for each set bit of `n`, lowest first. -/
def powFrom [Mul α] (r a : α) (n : Nat) : α :=
  let r' := if n % 2 = 1 then r * a else r
  if h : n / 2 = 0 then r' else powFrom r' (a * a) (n / 2)
termination_by n
decreasing_by omega

/-- `x ^ n` by repeated squaring. -/
def powSquaring [One α] [Mul α] (x : α) (n : Nat) : α :=
  powFrom 1 x n

/-- The largest exponent that evaluation raises a value to. -/
def maxPower : Nat := 2147483647

/-- The power of a value that a factor stands for; exponents above `maxPower` count as
`maxPower`. -/
def factorPower [One α] [Mul α] (x : α) (exponent : Nat) : α :=
  powSquaring x (min exponent maxPower)

/-! ## Inner products -/

/-- Eight running sums. Term `i` of an inner product goes to lane `i % 8`. -/
structure Lanes (α : Type) where
  lane0 : α
  lane1 : α
  lane2 : α
  lane3 : α
  lane4 : α
  lane5 : α
  lane6 : α
  lane7 : α

namespace Lanes

/-- Eight sums of nothing. -/
def zero [Zero α] : Lanes α := ⟨0, 0, 0, 0, 0, 0, 0, 0⟩

/-- The lanes are joined in pairs four apart. -/
def join [Zero α] [Add α] (s : Lanes α) : α :=
  0 + (s.lane0 + s.lane4) + (s.lane1 + s.lane5) + (s.lane2 + s.lane6) + (s.lane3 + s.lane7)

/-- Add whole blocks of eight terms to the lanes; the last, incomplete block is added to the joined
lanes term by term. -/
def sum [Zero α] [Add α] (s : Lanes α) : List α → α
  | t0 :: t1 :: t2 :: t3 :: t4 :: t5 :: t6 :: t7 :: rest =>
    sum ⟨s.lane0 + t0, s.lane1 + t1, s.lane2 + t2, s.lane3 + t3,
      s.lane4 + t4, s.lane5 + t5, s.lane6 + t6, s.lane7 + t7⟩ rest
  | rest => rest.foldl (· + ·) s.join

end Lanes

/-- The inner product of two lists over eight lanes; there is none when the lengths differ. -/
def laneDot? [Zero α] [Add α] [Mul α] (a x : List α) : Option α :=
  if a.length = x.length then some (Lanes.zero.sum (List.zipWith (· * ·) a x)) else none

/-- The inner product of two lists, term by term from the left. -/
def rowDot [Zero α] [Add α] [Mul α] (a x : List α) : α :=
  (List.zipWith (· * ·) a x).foldl (· + ·) 0

end DecisionAlgebra
