import DecisionAlgebra.Expression

/-!
# Dense vectors and matrices

A dense matrix stores numbers column after column, and always as many as its shape asks for.
Matrices of constants store theirs row after row; `ofRowMajor?` and `rowMajor` go between the two
orders. A dense vector has one column only, and is stored in the order of a column of constants.
-/

namespace DecisionAlgebra

variable {α : Type}

/-- Numbers by columns. -/
structure DenseMatrix (α : Type) where
  rows : Nat
  cols : Nat
  entries : Array α
  size_entries : entries.size = rows * cols

namespace DenseMatrix

instance [BEq α] : BEq (DenseMatrix α) :=
  ⟨fun a b => a.rows == b.rows && a.cols == b.cols && a.entries == b.entries⟩

/-- Column `j` and row `i` of a stored matrix lie within its entries. -/
theorem place_lt {rows cols i j : Nat} (hi : i < rows) (hj : j < cols) :
    j * rows + i < rows * cols := by
  have h : (j + 1) * rows ≤ cols * rows := Nat.mul_le_mul_right rows hj
  rw [Nat.add_mul, Nat.one_mul] at h
  rw [Nat.mul_comm rows cols]
  omega

/-- The number in row `i` and column `j`. -/
def get (d : DenseMatrix α) (i : Fin d.rows) (j : Fin d.cols) : α :=
  have : j.val * d.rows + i.val < d.entries.size := by
    rw [d.size_entries]
    exact place_lt i.isLt j.isLt
  d.entries[j.val * d.rows + i.val]

/-- The matrix of a function. -/
def ofFn (rows cols : Nat) (f : Fin rows → Fin cols → α) : DenseMatrix α where
  rows := rows
  cols := cols
  entries := ((List.finRange cols).flatMap fun j => (List.finRange rows).map fun i => f i j).toArray
  size_entries := by
    simp [List.length_flatMap, List.map_const', Nat.mul_comm]

/-- The rows from the top. -/
def toRows (d : DenseMatrix α) : List (List α) :=
  (List.finRange d.rows).map fun i => (List.finRange d.cols).map fun j => d.get i j

/-- All numbers by rows. -/
def rowMajor (d : DenseMatrix α) : List α := d.toRows.flatten

/-- The matrix whose numbers by rows are the first ones of a list; there is none when the list is
too short. -/
def ofRowMajor? (rows cols : Nat) (xs : List α) : Option (DenseMatrix α) :=
  let a := xs.toArray
  if h : rows * cols ≤ a.size then
    some <| ofFn rows cols fun i j =>
      have : i.val * cols + j.val < a.size := by
        have := place_lt j.isLt i.isLt
        rw [Nat.mul_comm cols rows] at this
        omega
      a[i.val * cols + j.val]
  else none

/-- The unit matrix of `n` rows. -/
def identity [Zero α] [One α] (n : Nat) : DenseMatrix α :=
  ofFn n n fun i j => if i = j then 1 else 0

/-- The square matrix with the given numbers on its diagonal and zero elsewhere. -/
def diagonal [Zero α] (xs : List α) : DenseMatrix α :=
  ofFn xs.length xs.length fun i j => if i = j then xs[i] else 0

/-- The matrix of constants with the same numbers. -/
def toMatrix (d : DenseMatrix α) : Matrix α := ⟨d.rows, d.cols, d.rowMajor⟩

/-- The expression with the same numbers. -/
def toExpression (d : DenseMatrix α) : Expression α := .matrix .constant d.toMatrix

end DenseMatrix

/-- The dense matrix with the numbers of a matrix of constants; there is none when it stores too
few. -/
def Matrix.toDense? (m : Matrix α) : Option (DenseMatrix α) :=
  DenseMatrix.ofRowMajor? m.rows m.cols m.entries

/-- Numbers in one column. -/
structure DenseVector (α : Type) where
  entries : Array α

namespace DenseVector

/-- The column of constants with the same numbers. -/
def toColumn (v : DenseVector α) : Column α := ⟨v.entries.toList⟩

/-- The expression with the same numbers. -/
def toExpression (v : DenseVector α) : Expression α := .vector .constant v.toColumn

end DenseVector

/-- The dense vector with the numbers of a column of constants. -/
def Column.toDense (c : Column α) : DenseVector α := ⟨c.entries.toArray⟩

/-- A list of numbers as a column of constants. -/
def Expression.ofNumbers (xs : List α) : Expression α := .vector .constant ⟨xs⟩

end DecisionAlgebra
