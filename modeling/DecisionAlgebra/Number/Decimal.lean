import DecisionAlgebra.Number.Binary64

/-!
# Decimal numerals

`Decimal` is a digit string with a power of ten. `shortest` finds the decimal with the fewest
digits that still rounds to a given number, and `positional` writes a decimal without an exponent,
padded with zeros up to the point.
-/

namespace DecisionAlgebra

/-- The number `digits * 10 ^ exponent`. -/
structure Decimal where
  digits : Nat
  exponent : Int
  deriving DecidableEq, Repr

namespace Decimal

/-- A power of ten. -/
def tenPow (n : Nat) : Nat := Nat.pow 10 n

/-- The same number without trailing zeros in its digits. -/
def trim (d : Decimal) : Decimal :=
  if h : d.digits ≠ 0 ∧ d.digits % 10 = 0 then trim ⟨d.digits / 10, d.exponent + 1⟩ else d
termination_by d.digits
decreasing_by omega

/-- Write a decimal without an exponent: `25 * 10 ^ 2` is `2500`, `25 * 10 ^ -1` is `2.5` and
`25 * 10 ^ -3` is `0.025`. -/
def positional (d : Decimal) : String :=
  let ds := Nat.toDigits 10 d.digits
  if 0 ≤ d.exponent then
    String.ofList (ds ++ List.replicate d.exponent.toNat '0')
  else
    let places := (-d.exponent).toNat
    let padded := List.replicate (places + 1 - ds.length) '0' ++ ds
    let whole := padded.length - places
    String.ofList (padded.take whole ++ '.' :: padded.drop whole)

/-! ## The shortest decimal of a number -/

/-- An interval of positive numbers around a value, all in units of `1 / unit`. Its ends belong to
it when `closed` holds. -/
structure Interval where
  low : Nat
  value : Nat
  high : Nat
  unit : Nat
  closed : Bool

/-- The numbers that round to a magnitude: half way to the neighbour on either side, ends included
exactly when the significand is even. The neighbour below a power of two is only half as far. -/
def Interval.ofMagnitude (m : Binary64.Magnitude) : Interval :=
  let quarter := 4 * m.significand
  let narrow :=
    m.significand = Binary64.twoPow Binary64.fractionBits ∧ Binary64.minExponent < m.exponent
  let low := if narrow then quarter - 1 else quarter - 2
  let up := Binary64.twoPow (m.exponent - 2).toNat
  let unit := Binary64.twoPow (2 - m.exponent).toNat
  ⟨low * up, quarter * up, (quarter + 2) * up, unit, m.significand % 2 = 0⟩

/-- The largest `e` with `10 ^ e ≤ num / den`, for positive `num` and `den`. -/
def leadingExponent (num den : Nat) : Int :=
  if den ≤ num then (Nat.toDigits 10 (num / den)).length - 1
  else
    let places := (Nat.toDigits 10 (den / num)).length - 1
    if num * tenPow places = den then -(places : Int) else -(places + 1 : Int)

/-- Whether `n` units of `1 / unit` lie in the interval. -/
def Interval.contains (i : Interval) (n : Nat) : Bool :=
  if i.closed then i.low ≤ n && n ≤ i.high else i.low < n && n < i.high

/-- The point of the grid `10 ^ p` in the interval that is nearest to its value, the upper one on a
tie. Only the two grid points next to the value are looked at. -/
def Interval.gridPoint? (i : Interval) (p : Int) : Option Decimal :=
  let scale := tenPow (-p).toNat
  let step := i.unit * tenPow p.toNat
  let j : Interval := ⟨i.low * scale, i.value * scale, i.high * scale, i.unit, i.closed⟩
  let below := j.value / step
  let downGap := j.value - below * step
  let upGap := (below + 1) * step - j.value
  match j.contains (below * step), j.contains ((below + 1) * step) with
  | true, true => some ⟨if upGap ≤ downGap then below + 1 else below, p⟩
  | true, false => some ⟨below, p⟩
  | false, true => some ⟨below + 1, p⟩
  | false, false => none

/-- Seventeen digits always suffice to tell a number from its neighbours. -/
def maxDigits : Nat := 17

/-- The decimal with the fewest digits in the interval, nearest to its value among those. -/
def Interval.shortest (i : Interval) : Decimal :=
  let lead := leadingExponent i.value i.unit
  let found := (List.range maxDigits).findSome? fun (n : Nat) => i.gridPoint? (lead - n)
  (found.getD ⟨i.value / i.unit, 0⟩).trim

/-- The shortest decimal that rounds to the size of a finite number. -/
def shortest (x : Float) : Decimal :=
  let m := Binary64.magnitude x
  if m.significand = 0 then ⟨0, 0⟩ else (Interval.ofMagnitude m).shortest

end Decimal

/-- A number in positional notation, with the fewest digits that read back as the same number. A
whole number has no point, and a negative zero keeps its sign. -/
def floatText (x : Float) : String :=
  if x.isNaN then "NaN"
  else
    let size := if x.isInf then "inf" else (Decimal.shortest x).positional
    if Binary64.isNegative x then "-" ++ size else size

end DecisionAlgebra
