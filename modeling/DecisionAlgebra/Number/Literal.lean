import DecisionAlgebra.Number.Decimal

/-!
# Reading decimal numbers

A literal is an exact decimal with a sign. It becomes a number by one correct rounding, so a text
with the shortest digits of a number reads back as that number.
-/

namespace DecisionAlgebra

/-- A signed decimal as written; `-0` differs from `0`. -/
structure Literal where
  negative : Bool
  size : Decimal
  deriving DecidableEq, Repr

namespace Literal

/-- A decimal of size at least `10 ^ 310` is infinite and one below `10 ^ -330` is zero; between the
two the exact quotient is rounded. -/
def toFloat (l : Literal) : Float :=
  let lead : Int := (Nat.toDigits 10 l.size.digits).length + l.size.exponent
  if l.size.digits = 0 ∨ lead < -330 then Binary64.nearest l.negative 0 1
  else if 311 < lead then Binary64.nearest l.negative (Decimal.tenPow 311) 1
  else
    Binary64.nearest l.negative (l.size.digits * Decimal.tenPow l.size.exponent.toNat)
      (Decimal.tenPow (-l.size.exponent).toNat)

/-- The value of a string of decimal digits. -/
def digitsValue (cs : List Char) : Nat :=
  cs.foldl (fun n c => 10 * n + (c.toNat - '0'.toNat)) 0

/-- The digits at the front of a text, and what follows them. -/
def takeDigits (cs : List Char) : List Char × List Char :=
  (cs.takeWhile Char.isDigit, cs.dropWhile Char.isDigit)

/-- An optional sign at the front of a text: whether it is a minus, and what follows it. -/
def takeSign : List Char → Bool × List Char
  | '-' :: rest => (true, rest)
  | '+' :: rest => (false, rest)
  | rest => (false, rest)

/-- The exponent part of a number, which is the whole of the rest: nothing, or `e` with an optional
sign and at least one digit. -/
def exponent? : List Char → Option Int
  | [] => some 0
  | c :: rest =>
    if c = 'e' ∨ c = 'E' then
      let (negative, rest) := takeSign rest
      let (ds, rest) := takeDigits rest
      if ds.isEmpty ∨ !rest.isEmpty then none
      else some (if negative then -(digitsValue ds : Int) else digitsValue ds)
    else none

/-- An unsigned decimal: digits on at least one side of an optional point, then an optional
exponent. -/
def unsigned? (cs : List Char) : Option Decimal := do
  let (whole, rest) := takeDigits cs
  let (fraction, rest) := match rest with
    | '.' :: rest => takeDigits rest
    | rest => ([], rest)
  if whole.isEmpty && fraction.isEmpty then none
  else
    let e ← exponent? rest
    some ⟨digitsValue (whole ++ fraction), e - fraction.length⟩

end Literal

/-- Read a number: an optional sign, then a decimal, or one of the words `inf`, `infinity` and `nan`
in any case. -/
def readFloat? (s : String) : Option Float :=
  let (negative, rest) := Literal.takeSign s.toList
  let word := String.ofList (rest.map Char.toLower)
  if word = "inf" ∨ word = "infinity" then
    some (Binary64.nearest negative (Decimal.tenPow 311) 1)
  else if word = "nan" then some (0 / 0)
  else (Literal.unsigned? rest).map fun d => (Literal.mk negative d).toFloat

end DecisionAlgebra
