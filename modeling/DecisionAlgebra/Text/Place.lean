/-!
# Places in a text

A place is a number of bytes of the UTF-8 form of a text. It may fall inside a character, and then
there is nothing to be cut off there.
-/

namespace DecisionAlgebra.Text

/-- Every character with its place, the first one at place `n`. -/
def placesFrom (n : Nat) : List Char → List (Nat × Char)
  | [] => []
  | c :: cs => (n, c) :: placesFrom (n + c.utf8Size) cs

/-- What a text holds from a place on. There is nothing from inside a character or past the end. -/
def dropBytes? : Nat → List Char → Option (List Char)
  | 0, cs => some cs
  | _ + 1, [] => none
  | n + 1, c :: cs => if c.utf8Size ≤ n + 1 then dropBytes? (n + 1 - c.utf8Size) cs else none

end DecisionAlgebra.Text
