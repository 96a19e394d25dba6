import DecisionAlgebra.Proofs.Refusals

/-!
# What the check of a matrix reports

A matrix may have been read with fewer or more entries than its shape asks for. Its check finds that
by counting and reports a row of a wrong length, which it works out from the numbers alone: the row
in which the entries end, or the one after the last when there are too many. Here the report is
compared with the entries. The rows before the one reported are complete. A row in which the entries
end has what it is said to have, which is less than it should. What comes after the last row is
counted as one row, however much it is; so the report can say that a row has the length it should
have, and does so exactly when there is one complete row too many.
-/

namespace DecisionAlgebra

variable {α β : Type}

/-- No entry is refused for a ragged row. -/
theorem Kind.checkEntry_ne_raggedRow {k : Kind} {row expected actual : Nat} (x : k.Entry α) :
    k.checkEntry x ≠ .error (.raggedRow row expected actual) :=
  fun h => nomatch Scalar.isMalformedScalar_of_check h

namespace Matrix

/-- The entries that there are for a row: as many as there are columns, fewer where the entries end,
none after that. -/
def storedRow (m : Matrix β) (i : Nat) : List β := (m.entries.drop (i * m.cols)).take m.cols

theorem length_storedRow (m : Matrix β) (i : Nat) :
    (m.storedRow i).length = min m.cols (m.entries.length - i * m.cols) := by
  rw [storedRow, List.length_take, List.length_drop]

/-- What is said of a matrix by reporting a row with the length it should have and the length it
has. The first `row` rows are complete. Where entries are missing, they end in the row that is
reported; where there are too many, it stands for all that comes after the last row. -/
structure ReportsRow (m : Matrix β) (row expected actual : Nat) : Prop where
  expected_eq : expected = m.cols
  row_eq : row = min m.rows (m.entries.length / m.cols)
  complete : ∀ i < row, (m.storedRow i).length = expected
  short : m.entries.length < m.rows * m.cols →
    row < m.rows ∧ actual = (m.storedRow row).length ∧ actual < expected
  long : m.rows * m.cols < m.entries.length →
    row = m.rows ∧ actual = (m.entries.drop (m.rows * m.cols)).length

variable {m : Matrix β} {row expected actual : Nat}

/-- The row that is worked out is the one in which the entries end, or the one after the last. -/
theorem reportedRow_eq (hcols : 0 < m.cols) :
    min m.entries.length (m.rows * m.cols) / m.cols = min m.rows (m.entries.length / m.cols) := by
  rcases Nat.lt_or_ge m.entries.length (m.rows * m.cols) with hshort | hlong
  · rw [Nat.min_eq_left hshort.le, Nat.min_eq_right ((Nat.div_lt_iff_lt_mul hcols).mpr hshort).le]
  · rw [Nat.min_eq_right hlong, Nat.mul_div_cancel _ hcols,
      Nat.min_eq_left ((Nat.le_div_iff_mul_le hcols).mpr hlong)]

theorem reportsRow_of_check (hcols : 0 < m.cols)
    (hrow : row = min m.entries.length (m.rows * m.cols) / m.cols)
    (hactual : actual = m.entries.length - row * m.cols) : m.ReportsRow row m.cols actual := by
  rw [reportedRow_eq hcols] at hrow
  -- no more rows are counted than there are entries for
  have hstored : row * m.cols ≤ m.entries.length :=
    (Nat.le_div_iff_mul_le hcols).mp (hrow.le.trans (Nat.min_le_right _ _))
  refine ⟨rfl, hrow, fun i hi => ?_, fun hshort => ?_, fun hlong => ?_⟩
  · have hnext : (i + 1) * m.cols ≤ row * m.cols := Nat.mul_le_mul_right _ hi
    rw [Nat.succ_mul] at hnext
    rw [length_storedRow]
    omega
  · have hlt : m.entries.length / m.cols < m.rows := (Nat.div_lt_iff_lt_mul hcols).mpr hshort
    have hquotient : row = m.entries.length / m.cols := hrow.trans (Nat.min_eq_right hlt.le)
    have hnext : m.entries.length < (row + 1) * m.cols :=
      (Nat.div_lt_iff_lt_mul hcols).mp (hquotient ▸ Nat.lt_succ_self _)
    rw [Nat.succ_mul] at hnext
    rw [length_storedRow]
    exact ⟨hquotient ▸ hlt, by omega, by omega⟩
  · have hlast : row = m.rows :=
      hrow.trans (Nat.min_eq_left ((Nat.le_div_iff_mul_le hcols).mpr hlong.le))
    exact ⟨hlast, by rw [List.length_drop, hactual, hlast]⟩

/-- A report says that a row has the length it should have exactly when there is one complete row
too many. -/
theorem ReportsRow.actual_eq_iff (h : m.ReportsRow row expected actual)
    (hlen : m.entries.length ≠ m.rows * m.cols) :
    actual = expected ↔ m.entries.length = (m.rows + 1) * m.cols := by
  rw [Nat.succ_mul, h.expected_eq]
  rcases Nat.lt_or_gt_of_ne hlen with hshort | hlong
  · obtain ⟨-, -, hlt⟩ := h.short hshort
    rw [h.expected_eq] at hlt
    exact ⟨fun heq => absurd heq hlt.ne, fun heq => by omega⟩
  · obtain ⟨-, hactual⟩ := h.long hlong
    rw [hactual, List.length_drop]
    omega

variable {k : Kind}

/-- A row is reported exactly for a matrix that is not empty and has a wrong number of entries. -/
theorem check_eq_raggedRow {m : Matrix (k.Entry α)} :
    m.check k.checkEntry = .error (.raggedRow row expected actual) ↔
      (m.Occupied ∧ m.entries.length ≠ m.rows * m.cols) ∧
      row = min m.entries.length (m.rows * m.cols) / m.cols ∧ expected = m.cols ∧
      actual = m.entries.length - row * m.cols := by
  rcases m.check_cases k.checkEntry with ⟨hempty, h⟩ | ⟨-, hlen, h⟩ | ⟨hoccupied, hlen, h⟩
  · rw [h]
    exact ⟨nofun, fun h => absurd h.1.1 hempty⟩
  · refine ⟨fun hreport => ?_, fun h => absurd hlen h.1.2⟩
    obtain ⟨x, -, hx⟩ := forM_eq_error (h.symm.trans hreport)
    exact absurd hx (Kind.checkEntry_ne_raggedRow x)
  · rw [h, and_iff_right ⟨hoccupied, hlen⟩]
    constructor
    · intro hreport
      cases hreport
      exact ⟨rfl, rfl, rfl⟩
    · intro hreport
      obtain ⟨rfl, rfl, rfl⟩ := hreport
      rfl

/-- **What the check of a matrix finds out, and what it reports.** A matrix passes exactly when it
has rows, columns and entries, as many entries as its shape asks for, and every entry passes. A row
is reported exactly when only their number is wrong for a matrix that is not empty, and the report
is true of the entries. It says that the row has a wrong length, except where there is exactly one
complete row too many. -/
theorem check_reports (m : Matrix (k.Entry α)) :
    (m.check k.checkEntry = .ok () ↔ (0 < m.rows ∧ 0 < m.cols ∧ m.entries ≠ []) ∧
      m.entries.length = m.rows * m.cols ∧ ∀ x ∈ m.entries, k.checkEntry x = .ok ()) ∧
    ((∃ row expected actual, m.check k.checkEntry = .error (.raggedRow row expected actual)) ↔
      (0 < m.rows ∧ 0 < m.cols ∧ m.entries ≠ []) ∧ m.entries.length ≠ m.rows * m.cols) ∧
    ∀ row expected actual, m.check k.checkEntry = .error (.raggedRow row expected actual) →
      m.ReportsRow row expected actual ∧
      (actual = expected ↔ m.entries.length = (m.rows + 1) * m.cols) := by
  have hoccupied : m.Occupied ↔ 0 < m.rows ∧ 0 < m.cols ∧ m.entries ≠ [] :=
    ⟨fun h => ⟨h.rows_pos, h.cols_pos, h.ne_nil⟩, fun h => ⟨h.2.2, h.1, h.2.1⟩⟩
  rw [← hoccupied]
  refine ⟨check_eq_ok, ⟨fun h => ?_, fun h => ?_⟩, fun row expected actual h => ?_⟩
  · obtain ⟨row, expected, actual, h⟩ := h
    exact (check_eq_raggedRow.mp h).1
  · exact ⟨_, _, _, check_eq_raggedRow.mpr ⟨h, rfl, rfl, rfl⟩⟩
  · obtain ⟨⟨hm, hlen⟩, hrow, rfl, hactual⟩ := check_eq_raggedRow.mp h
    have hreports := reportsRow_of_check hm.cols_pos hrow hactual
    exact ⟨hreports, hreports.actual_eq_iff hlen⟩

/-- Of three entries for three rows of two columns the second row has one, and of seven entries one
is left after the third row. -/
theorem check_reports_short :
    let short : Matrix (Kind.constant.Entry ℤ) := ⟨3, 2, [1, 2, 3]⟩
    let long : Matrix (Kind.constant.Entry ℤ) := ⟨3, 2, [1, 2, 3, 4, 5, 6, 7]⟩
    (short.check Kind.constant.checkEntry = .error (.raggedRow 1 2 1) ∧ short.ReportsRow 1 2 1) ∧
      long.check Kind.constant.checkEntry = .error (.raggedRow 3 2 1) ∧ long.ReportsRow 3 2 1 := by
  intro short long
  have hshort : short.check Kind.constant.checkEntry = .error (.raggedRow 1 2 1) := by cbv
  have hlong : long.check Kind.constant.checkEntry = .error (.raggedRow 3 2 1) := by cbv
  exact ⟨⟨hshort, ((check_reports short).2.2 _ _ _ hshort).1⟩, hlong,
    ((check_reports long).2.2 _ _ _ hlong).1⟩

/-- Four entries for one row of two columns: it is reported that the second row has two entries and
should have two, so a report need not name a wrong length. -/
theorem surplus_row_reported :
    let m : Matrix (Kind.constant.Entry ℤ) := ⟨1, 2, [1, 2, 3, 4]⟩
    m.check Kind.constant.checkEntry = .error (.raggedRow 1 2 2) ∧
      (Error.raggedRow 1 2 2).message = "[MATRIX_RAGGED_ROW] Row 1 has 2 columns; expected 2" ∧
      ¬∀ row expected actual, m.check Kind.constant.checkEntry =
        .error (.raggedRow row expected actual) → actual ≠ expected := by
  intro m
  have hm : m.check Kind.constant.checkEntry = .error (.raggedRow 1 2 2) := by cbv
  exact ⟨hm, by cbv, fun h => h _ _ _ hm rfl⟩

end Matrix

end DecisionAlgebra
