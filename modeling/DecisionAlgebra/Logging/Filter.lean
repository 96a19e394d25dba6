import DecisionAlgebra.Failure
import DecisionAlgebra.Text.Alphanumeric
import DecisionAlgebra.Text.Blank
import DecisionAlgebra.Text.Place

/-!
# Log filters

A filter is a list of directives separated by commas; an empty one counts for nothing. A directive
is a level alone, or it says for which events a level counts:

> `target[span{field=value}]=level`

Every part may be left out, but not all of them. Only the level is looked at, and a word that stands
alone and is no level is a target.

The blanks around a directive do not count when its parts are found, and their places are counted
from behind the blanks. The parts are then cut out of the directive with its blanks. So a blank in
front moves every part, and a blank at the end belongs to the level.
-/

namespace DecisionAlgebra.Logging

/-- Why a filter is refused. -/
inductive FilterError where
  /-- A directive without the form of one. -/
  | malformed
  /-- A part in the place of a level that is none. -/
  | unknownLevel
  deriving DecidableEq, Repr

/-- What is wrong with a filter, in words. -/
def FilterError.message : FilterError → String
  | malformed => "invalid filter directive"
  | unknownLevel =>
    "error parsing level filter: expected one of \"off\", \"error\", \"warn\", \"info\", " ++
      "\"debug\", \"trace\", or a number 0-5"

/-! ## Levels -/

/-- The words for levels. -/
def levelWords : List String := ["off", "error", "warn", "info", "debug", "trace"]

/-- A text in small letters; only those of the English alphabet are changed. -/
def lowercase (s : String) : String := String.ofList (s.toList.map Char.toLower)

/-- Whether digits stand for a number up to five; zeros may come first. -/
def isLevelNumber (cs : List Char) : Bool :=
  match cs.dropWhile (· = '0') with
  | [] => !cs.isEmpty
  | [c] => ['1', '2', '3', '4', '5'].contains c
  | _ => false

/-- A text without the plus sign that it may start with. -/
def dropPlus : List Char → List Char
  | '+' :: cs => cs
  | cs => cs

/-- Whether a text names a level, by a word in any case or by a number. -/
def isLevel (cs : List Char) : Bool :=
  levelWords.contains (lowercase (String.ofList cs)) || isLevelNumber (dropPlus cs)

/-! ## Directives -/

/-- How far a directive has been read. A part that is being read comes with the place where it
starts. -/
inductive Stage where
  /-- Nothing has been read. -/
  | start
  /-- A target, or a level that stands alone. -/
  | target
  /-- In brackets. -/
  | span (place : Nat)
  /-- In braces, which stand in brackets. -/
  | field (place : Nat)
  /-- The brace is closed and the bracket is not. -/
  | fieldRead
  /-- The bracket is closed. -/
  | spanRead
  /-- Behind the equals sign. -/
  | level (place : Nat)
  deriving DecidableEq, Repr

/-- Whether a target can start with a character. -/
def startsTarget (c : Char) : Bool := c = '-' || c = ':' || c = '_' || Text.isAlphanumeric c

/-- Cut a directive at a place. -/
def cut (text : List Char) (place : Nat) : Attempt FilterError (List Char) :=
  Attempt.read (Text.dropBytes? place text)

/-- Read the character at a place. A part is cut out of the directive when it ends. -/
def Stage.next (text : List Char) (stage : Stage) (place : Nat) (c : Char) :
    Attempt FilterError Stage :=
  match stage, c with
  | start, '[' => .ok (span (place + 1))
  | start, c => if startsTarget c then .ok target else Attempt.refuse .malformed
  | target, '=' => do
    let _ ← cut text place
    return level (place + 1)
  | target, '[' => do
    let _ ← cut text place
    return span (place + 1)
  | target, _ => .ok target
  | span first, ']' => do
    let _ ← cut text first
    let _ ← cut text place
    return spanRead
  | span first, '{' => do
    let _ ← cut text first
    let _ ← cut text place
    return field (place + 1)
  | span first, _ => .ok (span first)
  | field first, '}' => do
    let _ ← cut text first
    let _ ← cut text place
    if first = place then Attempt.refuse .malformed else return fieldRead
  | field first, _ => .ok (field first)
  | fieldRead, ']' => .ok spanRead
  | spanRead, '=' => .ok (level (place + 1))
  | level first, _ => .ok (level first)
  | _, _ => Attempt.refuse .malformed

/-- Check what a directive ends with. Every level may be left out behind its equals sign. -/
def Stage.finish (text : List Char) : Stage → Attempt FilterError Unit
  | target => .ok ()
  | spanRead => .ok ()
  | level place => do
    let word ← cut text place
    if word.isEmpty || isLevel word then return () else Attempt.refuse .unknownLevel
  | _ => Attempt.refuse .malformed

/-- Check a directive. -/
def checkDirective (text : List Char) : Attempt FilterError Unit := do
  let stage ← (Text.placesFrom 0 (Text.trim text)).foldlM
    (fun stage (place, c) => stage.next text place c) Stage.start
  stage.finish text

/-! ## Filters -/

/-- The texts between commas. -/
def splitCommas : List Char → List (List Char)
  | [] => [[]]
  | ',' :: rest => [] :: splitCommas rest
  | c :: rest =>
    match splitCommas rest with
    | d :: ds => (c :: d) :: ds
    | [] => [[c]]

/-- The directives of a filter. -/
def directives (filter : String) : List (List Char) :=
  (splitCommas filter.toList).filter (!·.isEmpty)

/-- Check the directives of a filter in their order. -/
def checkFilter (filter : String) : Attempt FilterError Unit :=
  (directives filter).forM checkDirective

end DecisionAlgebra.Logging
