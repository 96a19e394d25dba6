/-!
# Binary floating-point numbers as exact integers

A finite 64-bit number is `significand * 2 ^ exponent` up to its sign. `magnitude` takes it apart
and `nearest` goes the other way, from an exact quotient to the closest number, a tie to the even
significand. Everything in between is arithmetic on natural numbers.
-/

namespace DecisionAlgebra.Binary64

/-- A power of two. -/
def twoPow (n : Nat) : Nat := Nat.pow 2 n

/-- Bits of the stored fraction. -/
def fractionBits : Nat := 52

/-- The exponent of the smallest positive number, `2 ^ minExponent`. -/
def minExponent : Int := -1074

/-- The size of a finite number: `significand * 2 ^ exponent`. -/
structure Magnitude where
  significand : Nat
  exponent : Int

/-- The exponent field of a bit pattern. -/
def exponentField (bits : Nat) : Nat := bits / twoPow fractionBits % 2048

/-- The fraction field of a bit pattern. -/
def fractionField (bits : Nat) : Nat := bits % twoPow fractionBits

/-- Whether the sign bit is set; zeros have one too. -/
def isNegative (x : Float) : Bool := x.toBits.toNat / twoPow 63 % 2 = 1

/-- The size of a finite number, its sign left out. Numbers with a zero exponent field have no
hidden leading bit. -/
def magnitude (x : Float) : Magnitude :=
  let bits := x.toBits.toNat
  let field := exponentField bits
  if field = 0 then ⟨fractionField bits, minExponent⟩
  else ⟨twoPow fractionBits + fractionField bits, minExponent + (field - 1 : Nat)⟩

/-- `num / den` rounded to an integer, a half to the even neighbour. -/
def roundHalfEven (num den : Nat) : Nat :=
  let q := num / den
  let twice := 2 * (num % den)
  if twice < den then q
  else if den < twice then q + 1
  else q + q % 2

/-- The quotient `num / (den * 2 ^ e)` as a fraction of natural numbers. -/
def scaled (num den : Nat) (e : Int) : Nat × Nat :=
  if 0 ≤ e then (num, den * twoPow e.toNat) else (num * twoPow (-e).toNat, den)

/-- The exponent with which `num / den` fills the significand: `num / den` is at least
`2 ^ 52` and below `2 ^ 53` of its units, unless that falls below `minExponent`. -/
def unitExponent (num den : Nat) : Int :=
  let guess : Int := (num.log2 : Int) - den.log2 - fractionBits
  let (n, d) := scaled num den guess
  let exact := if n < d * twoPow fractionBits then guess - 1 else guess
  max exact minExponent

/-- The bit pattern of infinity. -/
def infinityBits : Nat := 2047 * twoPow fractionBits

/-- The bit pattern of the number closest to `num / den`, for positive `num` and `den`. The hidden
leading bit and a carry out of the significand both move on to the next exponent by addition. -/
def nearestBits (num den : Nat) : Nat :=
  let e := unitExponent num den
  let (n, d) := scaled num den e
  min ((e - minExponent).toNat * twoPow fractionBits + roundHalfEven n d) infinityBits

/-- The number closest to `num / den`, with the given sign; `den` is positive. -/
def nearest (negative : Bool) (num den : Nat) : Float :=
  let bits := if num = 0 then 0 else nearestBits num den
  Float.ofBits (UInt64.ofNat (if negative then twoPow 63 + bits else bits))

end DecisionAlgebra.Binary64
