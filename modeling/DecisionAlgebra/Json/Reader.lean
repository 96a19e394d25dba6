import DecisionAlgebra.Json.Tree
import DecisionAlgebra.Number.Numeral

/-!
# Reading JSON

A strict reader: one value with blanks around it and nothing else. Every function takes the rest of
the text and gives back what it has read with the rest after it.
-/

namespace DecisionAlgebra.Json

/-- The four characters that may stand between tokens. -/
def isBlank (c : Char) : Bool := c = ' ' || c = '\t' || c = '\n' || c = '\r'

/-- Drop blanks. -/
def skipBlanks (cs : List Char) : List Char := cs.dropWhile isBlank

/-- Drop an expected word. -/
def expect? (word : List Char) (cs : List Char) : Option (List Char) :=
  if word.isPrefixOf cs then some (cs.drop word.length) else none

/-! ## Numbers -/

/-- The whole part of a number: a zero alone, or digits that do not start with one. -/
def wholePart? (cs : List Char) : Option (List Char × List Char) :=
  let (ds, rest) := Literal.takeDigits cs
  match ds with
  | [] => none
  | ['0'] => some (ds, rest)
  | '0' :: _ => none
  | _ => some (ds, rest)

/-- The digits after a point; none at all when there is no point. -/
def fractionPart? : List Char → Option (List Char × List Char)
  | '.' :: rest =>
    let (ds, rest) := Literal.takeDigits rest
    if ds.isEmpty then none else some (ds, rest)
  | rest => some ([], rest)

/-- The exponent of a number, if it has one. -/
def exponentPart? : List Char → Option (Option Int × List Char)
  | [] => some (none, [])
  | c :: rest =>
    if c = 'e' ∨ c = 'E' then
      let (negative, rest) := Literal.takeSign rest
      let (ds, rest) := Literal.takeDigits rest
      let size : Int := Literal.digitsValue ds
      if ds.isEmpty then none else some (some (if negative then -size else size), rest)
    else some (none, c :: rest)

/-- A number. Digits alone make an integer, except that a negative zero is kept as a number with a
sign. -/
def number? (cs : List Char) : Option (Json Float × List Char) := do
  let (negative, rest) := match cs with
    | '-' :: rest => (true, rest)
    | rest => (false, rest)
  let (whole, rest) ← wholePart? rest
  let (fraction, rest) ← fractionPart? rest
  let (e, rest) ← exponentPart? rest
  let digits := Literal.digitsValue (whole ++ fraction)
  if fraction.isEmpty && e.isNone && !(negative && digits = 0) then
    return (.integer (if negative then -digits else digits), rest)
  else
    let literal : Literal := ⟨negative, ⟨digits, e.getD 0 - fraction.length⟩⟩
    return (.real literal.toFloat, rest)

/-! ## Strings -/

/-- What stands in a string: a character, or a 16-bit unit given by its number. -/
inductive Piece where
  | char (c : Char)
  | unit (n : Nat)

/-- The value of a hexadecimal digit. -/
def hexValue? (c : Char) : Option Nat :=
  if c.isDigit then some (c.toNat - '0'.toNat)
  else if 'a' ≤ c ∧ c ≤ 'f' then some (c.toNat - 'a'.toNat + 10)
  else if 'A' ≤ c ∧ c ≤ 'F' then some (c.toNat - 'A'.toNat + 10)
  else none

/-- The character that a one-letter escape stands for. -/
def escaped? (c : Char) : Option Char :=
  match c with
  | '"' => some '"'
  | '\\' => some '\\'
  | '/' => some '/'
  | 'b' => some (Char.ofNat 8)
  | 'f' => some (Char.ofNat 12)
  | 'n' => some '\n'
  | 'r' => some '\r'
  | 't' => some '\t'
  | _ => none

/-- The contents of a string up to its closing quote. Control characters must be escaped. -/
def pieces? : List Char → Option (List Piece × List Char)
  | '"' :: rest => some ([], rest)
  | '\\' :: 'u' :: a :: b :: c :: d :: rest => do
    let n := 4096 * (← hexValue? a) + 256 * (← hexValue? b) + 16 * (← hexValue? c) + (← hexValue? d)
    let (ps, rest) ← pieces? rest
    return (.unit n :: ps, rest)
  | '\\' :: e :: rest => do
    let c ← escaped? e
    let (ps, rest) ← pieces? rest
    return (.char c :: ps, rest)
  | c :: rest => do
    if c.toNat < 32 then none
    let (ps, rest) ← pieces? rest
    return (.char c :: ps, rest)
  | [] => none

/-- The text of the contents of a string. Two units that make a surrogate pair are one character;
half a pair is none. -/
def piecesText? : List Piece → Option (List Char)
  | [] => some []
  | .char c :: rest => (piecesText? rest).map (c :: ·)
  | .unit n :: rest =>
    if 0xD800 ≤ n ∧ n < 0xDC00 then
      match rest with
      | .unit m :: rest =>
        if 0xDC00 ≤ m ∧ m < 0xE000 then
          (piecesText? rest).map (Char.ofNat (0x10000 + (n - 0xD800) * 1024 + (m - 0xDC00)) :: ·)
        else none
      | _ => none
    else if 0xDC00 ≤ n ∧ n < 0xE000 then none
    else (piecesText? rest).map (Char.ofNat n :: ·)

/-- A string after its opening quote. -/
def stringRest? (cs : List Char) : Option (Option String × List Char) := do
  let (ps, rest) ← pieces? cs
  return ((piecesText? ps).map String.ofList, rest)

/-! ## Values -/

mutual

/-- A value after blanks. `fuel` bounds the number of values and separators. -/
def value? (fuel : Nat) (cs : List Char) : Option (Json Float × List Char) :=
  match fuel with
  | 0 => none
  | fuel + 1 =>
    match skipBlanks cs with
    | '"' :: rest => (stringRest? rest).map fun s => (s.1.elim .unpaired .string, s.2)
    | '[' :: rest =>
      match skipBlanks rest with
      | ']' :: rest => some (.array [], rest)
      | rest => (itemsFrom? fuel rest).map fun r => (.array r.1, r.2)
    | '{' :: rest =>
      match skipBlanks rest with
      | '}' :: rest => some (.object [], rest)
      | rest => (membersFrom? fuel rest).map fun r => (r.1.elim .unpaired .object, r.2)
    | 'n' :: rest => (expect? ['u', 'l', 'l'] rest).map fun rest => (.null, rest)
    | 't' :: rest => (expect? ['r', 'u', 'e'] rest).map fun rest => (.bool true, rest)
    | 'f' :: rest => (expect? ['a', 'l', 's', 'e'] rest).map fun rest => (.bool false, rest)
    | rest => number? rest

/-- The items of an array up to its closing bracket; there is at least one. -/
def itemsFrom? (fuel : Nat) (cs : List Char) : Option (List (Json Float) × List Char) :=
  match fuel with
  | 0 => none
  | fuel + 1 => do
    let (v, rest) ← value? fuel cs
    match skipBlanks rest with
    | ']' :: rest => return ([v], rest)
    | ',' :: rest =>
      let (vs, rest) ← itemsFrom? fuel rest
      return (v :: vs, rest)
    | _ => none

/-- The members of an object up to its closing brace; there is at least one. They are left out when
no text corresponds to one of the names. -/
def membersFrom? (fuel : Nat) (cs : List Char) :
    Option (Option (List (String × Json Float)) × List Char) :=
  match fuel with
  | 0 => none
  | fuel + 1 =>
    match skipBlanks cs with
    | '"' :: rest => do
      let (name, rest) ← stringRest? rest
      match skipBlanks rest with
      | ':' :: rest =>
        let (v, rest) ← value? fuel rest
        match skipBlanks rest with
        | '}' :: rest => return (name.map fun name => [(name, v)], rest)
        | ',' :: rest =>
          let (ms, rest) ← membersFrom? fuel rest
          return (do return (← name, v) :: (← ms), rest)
        | _ => none
      | _ => none
    | _ => none

end

/-- The value of a whole text. -/
def read? (s : String) : Option (Json Float) := do
  let cs := s.toList
  let (v, rest) ← value? (2 * cs.length + 2) cs
  if (skipBlanks rest).isEmpty then return v else none

end DecisionAlgebra.Json
