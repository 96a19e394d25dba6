import DecisionAlgebra.Json.Tree
import DecisionAlgebra.Number.Numeral

/-!
# Fields, numbers and tags

The building blocks of all serial forms. A record is written as an object and read from an object in
any order, where other names are ignored, or from the list of its fields. A tag is written as a
string.
-/

namespace DecisionAlgebra.Serial

variable {α : Type}

/-! ## Records -/

/-- Write a record. -/
def record (fields : List (String × Json α)) : Json α := .object fields

/-- The only member of a name; none or several are refused. -/
def onlyMember? (members : List (String × Json α)) (name : String) : Option (Json α) :=
  match members.filter (·.1 == name) with
  | [m] => some m.2
  | _ => none

/-- The fields of a record in the order of the names. -/
def readFields (names : List String) : Json α → Option (List (Json α))
  | .object members => names.mapM (onlyMember? members)
  | .array items => if items.length = names.length then some items else none
  | _ => none

/-! ## Tags -/

/-- The value among some that has the given tag. -/
def ofTag? {T : Type} (tag : T → String) (all : List T) (s : String) : Option T :=
  all.find? (tag · == s)

/-- Read a value without contents: its tag, or an object that gives the tag the value null. -/
def readTag {T : Type} (tag : T → String) (all : List T) : Json α → Option T
  | .string s => ofTag? tag all s
  | .object [(s, .null)] => ofTag? tag all s
  | _ => none

/-- Write a value with contents. -/
def variant (tag : String) (contents : Json α) : Json α := .object [(tag, contents)]

/-- Read a tag with its contents. -/
def readVariant : Json α → Option (String × Json α)
  | .object [m] => some m
  | _ => none

/-! ## Numbers and lists -/

/-- Write a number; one that is not finite is written as null. -/
def number [Extended α] (x : α) : Json α := if Extended.isFinite x then .real x else .null

/-- A finite number. -/
def finite? [Extended α] (x : α) : Option α := if Extended.isFinite x then some x else none

/-- Read a number; one too large to be finite is refused. -/
def readNumber [IntCast α] [Extended α] : Json α → Option α
  | .real x => finite? x
  | .integer n => finite? (n : α)
  | _ => none

/-- Read a natural number up to a limit. -/
def readCount (limit : Nat) (j : Json α) : Option Nat := do
  let n ← j.count?
  if n ≤ limit then return n else none

/-- The largest identifier or exponent. -/
def maxWord32 : Nat := 4294967295

/-- The largest number of rows or columns. -/
def maxWord64 : Nat := 18446744073709551615

/-- Write a list. -/
def list {T : Type} (write : T → Json α) (xs : List T) : Json α := .array (xs.map write)

/-- Read a list. -/
def readList {T : Type} (read : Json α → Option T) (j : Json α) : Option (List T) := do
  (← j.items?).mapM read

end DecisionAlgebra.Serial
