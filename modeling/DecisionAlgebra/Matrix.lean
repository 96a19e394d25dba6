import DecisionAlgebra.Outcome

/-!
# Columns and matrices

A column is a list of entries. A matrix keeps its entries in one list, row after row, beside its
numbers of rows and columns. `ofRows` makes the list as long as they ask for, but it may also be too
short or too long: `check` finds that, and a function that would read past the end answers `none`
or `Failure.outOfRange`.
-/

namespace DecisionAlgebra

variable {T : Type}

/-- A column of entries. -/
structure Column (T : Type) where
  entries : List T

namespace Column

instance [BEq T] : BEq (Column T) := ⟨fun a b => a.entries == b.entries⟩

/-- Number of entries. -/
def size (c : Column T) : Nat := c.entries.length

/-- As many rows as entries, and one column. -/
def shape (c : Column T) : Shape := .column c.size

/-- At least one entry, and every entry valid. -/
def check (checkEntry : T → Except Error Unit) (c : Column T) : Except Error Unit :=
  if c.entries.isEmpty then .error .emptyVector else c.entries.forM checkEntry

/-- The entry at an index; refused past the end. -/
def at? (c : Column T) (i : Nat) : Except Error T :=
  match c.entries[i]? with
  | some x => .ok x
  | none => .error (.indexOutOfBounds i 0 c.shape)

/-- Apply a function to every entry. -/
def map {U : Type} (f : T → U) (c : Column T) : Column U := ⟨c.entries.map f⟩

/-- A column in running text. -/
def text (entryText : T → String) (c : Column T) : String :=
  "[" ++ String.intercalate ", " (c.entries.map entryText) ++ "]"

end Column

/-- Entries by rows. -/
structure Matrix (T : Type) where
  rows : Nat
  cols : Nat
  entries : List T

/-- A column laid on its side. -/
def Column.transposed (c : Column T) : Matrix T := ⟨1, c.size, c.entries⟩

namespace Matrix

instance [BEq T] : BEq (Matrix T) :=
  ⟨fun a b => a.rows == b.rows && a.cols == b.cols && a.entries == b.entries⟩

/-! ## Building from rows -/

/-- The first row whose length is not `expected`, with its place counted from `i` and its length. -/
def firstRagged (expected i : Nat) : List (List T) → Option (Nat × Nat)
  | [] => none
  | r :: rs => if r.length = expected then firstRagged expected (i + 1) rs else some (i, r.length)

/-- The matrix with the given rows; they must all be as long as the first. -/
def ofRows (rs : List (List T)) : Except Error (Matrix T) :=
  let expected := (rs.head?.map List.length).getD 0
  match firstRagged expected 0 rs with
  | some (row, actual) => .error (.raggedRow row expected actual)
  | none => .ok ⟨rs.length, expected, rs.flatten⟩

/-! ## Reading a matrix -/

/-- Rows and columns. -/
def shape (m : Matrix T) : Shape := ⟨m.rows, m.cols⟩

/-- Rows, columns and entries there must be, as many entries as the shape asks for, and every entry
valid. The row reported for a wrong number of entries is the one in which they end, or the one after
the last when there are too many. -/
def check (checkEntry : T → Except Error Unit) (m : Matrix T) : Except Error Unit :=
  if m.entries.isEmpty || m.rows = 0 || m.cols = 0 then .error .emptyMatrix
  else if m.entries.length = m.rows * m.cols then m.entries.forM checkEntry
  else
    let row := min m.entries.length (m.rows * m.cols) / m.cols
    .error (.raggedRow row m.cols (m.entries.length - row * m.cols))

/-- The entry at a position; refused outside of the shape. -/
def at? (m : Matrix T) (row col : Nat) : Outcome T :=
  if row < m.rows ∧ col < m.cols then Attempt.read m.entries[row * m.cols + col]?
  else Attempt.refuse (.indexOutOfBounds row col m.shape)

/-- `n` entries of a list from place `start` on. -/
def slice? (start n : Nat) (xs : List T) : Option (List T) :=
  if start + n ≤ xs.length then some ((xs.drop start).take n) else none

/-- A row; refused outside of the shape. -/
def row? (m : Matrix T) (row : Nat) : Outcome (List T) :=
  if row < m.rows then Attempt.read (slice? (row * m.cols) m.cols m.entries)
  else Attempt.refuse (.indexOutOfBounds row 0 m.shape)

/-- Cut a list into pieces of `n` entries, for positive `n`; the last piece may be shorter. -/
def chunks (n : Nat) : List T → List (List T)
  | [] => []
  | x :: xs => (x :: xs.take (n - 1)) :: chunks n (xs.drop (n - 1))
termination_by xs => xs.length
decreasing_by rw [List.length_drop, List.length_cons]; omega

/-- The rows of a matrix. -/
def toRows (m : Matrix T) : List (List T) :=
  if m.cols = 0 then List.replicate m.rows [] else chunks m.cols m.entries

/-! ## Whole matrices -/

/-- Apply a function to every entry. -/
def map {U : Type} (f : T → U) (m : Matrix T) : Matrix U := ⟨m.rows, m.cols, m.entries.map f⟩

/-- Rows and columns exchanged. -/
def transposed (m : Matrix T) : Option (Matrix T) := do
  let xs := m.entries.toArray
  let columns ← (List.range m.cols).mapM fun col =>
    (List.range m.rows).mapM fun row => xs[row * m.cols + col]?
  return ⟨m.cols, m.rows, columns.flatten⟩

/-- Cut `n` rows of `cols` entries off a list. -/
def cutRows? (cols : Nat) : Nat → List T → Option (List (List T))
  | 0, _ => some []
  | n + 1, xs => do
    let row ← slice? 0 cols xs
    let rest ← cutRows? cols n (xs.drop cols)
    return row :: rest

/-- A matrix in running text: a list of its rows. Entries past the shape are not written. -/
def text (entryText : T → String) (m : Matrix T) : Option String := do
  let rs ← cutRows? m.cols m.rows m.entries
  return "[" ++ String.intercalate ", " (rs.map fun r => Column.text entryText ⟨r⟩) ++ "]"

end Matrix

end DecisionAlgebra
