import DecisionAlgebra.Json.Tree
import DecisionAlgebra.Number.Numeral

/-!
# Writing JSON

The text of a value without blanks. A number that is not kept as an integer always has a point, and
one that is not finite has no text but `null`.
-/

namespace DecisionAlgebra.Json

/-- The digit of a number below sixteen. -/
def hexDigit (n : Nat) : Char := (Nat.toDigits 16 n).getLastD '0'

/-- A character inside a string. Quotes, backslashes and control characters are escaped. -/
def charText (c : Char) : List Char :=
  if c = '"' then ['\\', '"']
  else if c = '\\' then ['\\', '\\']
  else if c = '\n' then ['\\', 'n']
  else if c = '\r' then ['\\', 'r']
  else if c = '\t' then ['\\', 't']
  else if c.toNat < 32 then ['\\', 'u', '0', '0', hexDigit (c.toNat / 16), hexDigit (c.toNat % 16)]
  else [c]

/-- A string in quotes. -/
def stringText (s : String) : String :=
  String.ofList ('"' :: s.toList.flatMap charText ++ ['"'])

/-- A number of the number type. -/
def realText (x : Float) : String :=
  if x.isFinite then
    let digits := numeral x
    if digits.toList.contains '.' then digits else digits ++ ".0"
  else "null"

mutual

/-- The text of a value. -/
def text : Json Float → String
  | .null => "null"
  | .bool b => if b then "true" else "false"
  | .integer n => toString n
  | .real x => realText x
  | .string s => stringText s
  | .unpaired => "null"
  | .array items => "[" ++ String.intercalate "," (itemTexts items) ++ "]"
  | .object members =>
    "\x7b" ++ String.intercalate "," (memberTexts members) ++ "\x7d"

/-- The texts of the items of an array. -/
def itemTexts : List (Json Float) → List String
  | [] => []
  | v :: vs => v.text :: itemTexts vs

/-- The texts of the members of an object. -/
def memberTexts : List (String × Json Float) → List String
  | [] => []
  | (name, v) :: ms => (stringText name ++ ":" ++ v.text) :: memberTexts ms

end

end DecisionAlgebra.Json
