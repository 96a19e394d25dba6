import DecisionAlgebra.Proofs.Grids

/-!
# Rows of a matrix

A matrix keeps its rows one after the other in one list, and its numbers of rows and columns say
where to cut it. `AreRows` is what ties a list of rows to the three of them. All that reads a matrix
by rows, together, one by one or entry by entry, follows from it, and a list of rows of one length
is what such a matrix is built from. Without columns there is nothing in the list that could be cut,
and the empty rows are known from their number alone.
-/

namespace DecisionAlgebra

variable {β : Type}

/-- Whole rows are dropped with all their entries. -/
theorem drop_flatten_of_length {n : Nat} {rows : List (List β)} (h : ∀ r ∈ rows, r.length = n) :
    ∀ i, rows.flatten.drop (i * n) = (rows.drop i).flatten := by
  induction rows with
  | nil => intro i; rw [List.flatten_nil, List.drop_nil, List.drop_nil, List.flatten_nil]
  | cons r rows ih =>
    intro i
    obtain ⟨hr, hrows⟩ := List.forall_mem_cons.mp h
    cases i with
    | zero => rw [Nat.zero_mul, List.drop_zero, List.drop_zero]
    | succ i =>
      rw [List.flatten_cons, Nat.succ_mul, Nat.add_comm, ← List.drop_drop, List.drop_left' hr,
        List.drop_succ_cons]
      exact ih hrows i

namespace Matrix

/-! ## Cutting a list into rows -/

theorem exists_cutRows? {cols : Nat} (n : Nat) :
    ∀ {xs : List β}, n * cols ≤ xs.length → ∃ rs, cutRows? cols n xs = some rs := by
  induction n with
  | zero => intro xs _; exact ⟨[], rfl⟩
  | succ n ih =>
    intro xs hxs
    rw [Nat.succ_mul] at hxs
    have hrest : n * cols ≤ (xs.drop cols).length := by rw [List.length_drop]; omega
    obtain ⟨rs, hrs⟩ := ih hrest
    have hrow : slice? 0 cols xs = some (xs.take cols) := if_pos (by omega)
    exact ⟨xs.take cols :: rs, by rw [cutRows?, hrow, hrs]; rfl⟩

/-- The rows cut off a list of the right length are as many and as long as was asked for, and make
up the list. -/
theorem cutRows?_eq_some {cols : Nat} {n : Nat} {xs : List β} {rs : List (List β)}
    (h : cutRows? cols n xs = some rs) (hlen : xs.length = n * cols) :
    rs.length = n ∧ (∀ r ∈ rs, r.length = cols) ∧ rs.flatten = xs := by
  induction n generalizing xs rs with
  | zero =>
    cases h
    rw [Nat.zero_mul] at hlen
    exact ⟨rfl, nofun, (List.eq_nil_of_length_eq_zero hlen).symm⟩
  | succ n ih =>
    rw [Nat.succ_mul] at hlen
    have hrow : slice? 0 cols xs = some (xs.take cols) := if_pos (by omega)
    rw [cutRows?, hrow, Option.bind_eq_bind, Option.bind_some] at h
    obtain ⟨rest, hrest, hrs⟩ := Option.bind_eq_some_iff.mp h
    cases hrs
    obtain ⟨hcount, hwidth, hflat⟩ := ih hrest (by rw [List.length_drop]; omega)
    refine ⟨congrArg (· + 1) hcount, List.forall_mem_cons.mpr ⟨?_, hwidth⟩, ?_⟩
    · rw [List.length_take]
      omega
    · rw [List.flatten_cons, hflat, List.take_append_drop]

theorem chunks_append {n : Nat} (hn : 0 < n) {r xs : List β} (hr : r.length = n) :
    chunks n (r ++ xs) = r :: chunks n xs := by
  cases r with
  | nil => exact absurd hr hn.ne
  | cons x r =>
    have hrest : r.length = n - 1 := by rw [← hr, List.length_cons, Nat.add_sub_cancel]
    rw [List.cons_append, chunks, List.take_left' hrest, List.drop_left' hrest]

theorem chunks_flatten {n : Nat} (hn : 0 < n) {rs : List (List β)} (h : ∀ r ∈ rs, r.length = n) :
    chunks n rs.flatten = rs := by
  induction rs with
  | nil => rw [List.flatten_nil, chunks]
  | cons r rs ih =>
    obtain ⟨hr, hrs⟩ := List.forall_mem_cons.mp h
    rw [List.flatten_cons, chunks_append hn hr, ih hrs]

/-! ## The rows of a matrix -/

/-- The rows of a matrix: as many and as long as its shape says, and one after the other its
entries. -/
structure AreRows (m : Matrix β) (rs : List (List β)) : Prop where
  length_eq : rs.length = m.rows
  width : ∀ r ∈ rs, r.length = m.cols
  flatten_eq : rs.flatten = m.entries

variable {m : Matrix β} {rs : List (List β)}

theorem at?_eq_ok {i j : Nat} {x : β} :
    m.at? i j = .ok x ↔ i < m.rows ∧ j < m.cols ∧ m.entries[i * m.cols + j]? = some x := by
  unfold at?
  split
  next h => rw [Attempt.read_eq_ok, ← and_assoc, and_iff_right h]
  next h => exact ⟨fun hx => absurd hx Attempt.refuse_ne_ok, fun hx => absurd ⟨hx.1, hx.2.1⟩ h⟩

/-- A matrix with as many entries as its shape asks for has rows. -/
theorem exists_areRows (h : m.entries.length = m.rows * m.cols) : ∃ rs, m.AreRows rs := by
  obtain ⟨rs, hcut⟩ := exists_cutRows? m.rows h.ge
  obtain ⟨hcount, hwidth, hflat⟩ := cutRows?_eq_some hcut h
  exact ⟨rs, hcount, hwidth, hflat⟩

theorem AreRows.toRows_eq (h : m.AreRows rs) : m.toRows = rs := by
  unfold toRows
  split
  next hcols =>
    -- all rows are empty
    refine (List.eq_replicate_iff.mpr ⟨h.length_eq, fun r hr => ?_⟩).symm
    exact List.eq_nil_of_length_eq_zero ((h.width r hr).trans hcols)
  next hcols =>
    rw [← h.flatten_eq]
    exact chunks_flatten (Nat.pos_of_ne_zero hcols) h.width

theorem AreRows.lt_rows_iff (h : m.AreRows rs) {i : Nat} : i < m.rows ↔ ∃ r, rs[i]? = some r := by
  rw [← h.length_eq]
  constructor
  · intro hi
    exact ⟨rs[i], List.getElem?_eq_getElem hi⟩
  · intro hrow
    obtain ⟨r, hr⟩ := hrow
    exact (List.getElem?_eq_some_iff.mp hr).1

theorem AreRows.row?_eq (h : m.AreRows rs) {i : Nat} {r : List β} (hr : rs[i]? = some r) :
    m.row? i = .ok r := by
  obtain ⟨hi, rfl⟩ := List.getElem?_eq_some_iff.mp hr
  have hwidth : rs[i].length = m.cols := h.width _ (List.getElem_mem hi)
  have hdrop : m.entries.drop (i * m.cols) = rs[i] ++ (rs.drop (i + 1)).flatten := by
    rw [← h.flatten_eq, drop_flatten_of_length h.width, List.drop_eq_getElem_cons hi,
      List.flatten_cons]
  have hend : i * m.cols + m.cols ≤ m.entries.length := by
    have hrows : (i + 1) * m.cols ≤ rs.length * m.cols := Nat.mul_le_mul_right _ hi
    rw [← h.flatten_eq, length_flatten_of_length h.width]
    rwa [Nat.succ_mul] at hrows
  rw [row?, if_pos (h.lt_rows_iff.mpr ⟨_, hr⟩), slice?, if_pos hend, hdrop,
    List.take_left' hwidth]
  rfl

theorem AreRows.at?_eq (h : m.AreRows rs) {i j : Nat} {r : List β} {x : β} (hr : rs[i]? = some r)
    (hx : r[j]? = some x) : m.at? i j = .ok x := by
  have hi : i < m.rows := h.lt_rows_iff.mpr ⟨r, hr⟩
  have hj : j < m.cols := by
    rw [← h.width r (List.mem_of_getElem? hr)]
    exact (List.getElem?_eq_some_iff.mp hx).1
  refine at?_eq_ok.mpr ⟨hi, hj, ?_⟩
  rw [← h.flatten_eq, getElem?_flatten_of_length hj h.width, hr]
  exact hx

/-- A matrix gives the rows out: all together, each at its index and each entry at its position.
What is asked for outside of them is refused. -/
structure GivesRows (m : Matrix β) (rs : List (List β)) : Prop where
  toRows_eq : m.toRows = rs
  row : ∀ i r, rs[i]? = some r → m.row? i = .ok r
  row_outside : ∀ i, rs[i]? = none → m.row? i = Attempt.refuse (.indexOutOfBounds i 0 m.shape)
  entry : ∀ i j r x, rs[i]? = some r → r[j]? = some x → m.at? i j = .ok x
  entry_outside : ∀ i j, (∀ r, rs[i]? = some r → r[j]? = none) →
    m.at? i j = Attempt.refuse (.indexOutOfBounds i j m.shape)

theorem AreRows.givesRows (h : m.AreRows rs) : m.GivesRows rs := by
  refine ⟨h.toRows_eq, fun i r => h.row?_eq, fun i hi => ?_, fun i j r x => h.at?_eq,
    fun i j hij => ?_⟩
  · refine if_neg fun hlt => ?_
    obtain ⟨r, hr⟩ := h.lt_rows_iff.mp hlt
    cases hi.symm.trans hr
  · refine if_neg fun hin => ?_
    obtain ⟨r, hr⟩ := h.lt_rows_iff.mp hin.1
    have hlen : r.length ≤ j := List.getElem?_eq_none_iff.mp (hij r hr)
    rw [h.width r (List.mem_of_getElem? hr)] at hlen
    exact absurd hin.2 (Nat.not_lt.mpr hlen)

/-! ## Building from rows -/

/-- The length of the first row; zero when there is none. -/
def firstLength (rs : List (List β)) : Nat := (rs.head?.map List.length).getD 0

/-- What building from rows gives for rows of which the first ragged one is known. -/
theorem ofRows_eq (rs : List (List β)) :
    ofRows rs = match firstRagged (firstLength rs) 0 rs with
      | some (row, actual) => .error (.raggedRow row (firstLength rs) actual)
      | none => .ok ⟨rs.length, firstLength rs, rs.flatten⟩ :=
  rfl

theorem firstRagged_eq_none {n i : Nat} :
    firstRagged n i rs = none ↔ ∀ r ∈ rs, r.length = n := by
  induction rs generalizing i with
  | nil => exact ⟨fun _ => nofun, fun _ => rfl⟩
  | cons r rs ih =>
    rw [firstRagged, List.forall_mem_cons]
    split
    next hr => rw [ih, and_iff_right hr]
    next hr => exact ⟨nofun, fun h => absurd h.1 hr⟩

/-- The row found has a wrong length and comes after rows of the right one. -/
theorem firstRagged_eq_some {n i row actual : Nat} :
    firstRagged n i rs = some (row, actual) ↔ ∃ before r after, rs = before ++ r :: after ∧
      (∀ q ∈ before, q.length = n) ∧ r.length ≠ n ∧ row = i + before.length ∧
      actual = r.length := by
  induction rs generalizing i with
  | nil =>
    refine ⟨nofun, fun h => ?_⟩
    obtain ⟨before, r, after, hrs, -⟩ := h
    simp at hrs
  | cons q rs ih =>
    rw [firstRagged]
    split
    next hq =>
      rw [ih]
      constructor
      · intro h
        obtain ⟨before, r, after, rfl, hbefore, hr, rfl, rfl⟩ := h
        refine ⟨q :: before, r, after, rfl, List.forall_mem_cons.mpr ⟨hq, hbefore⟩, hr, ?_, rfl⟩
        rw [List.length_cons]
        omega
      · intro h
        obtain ⟨before, r, after, hrs, hbefore, hr, rfl, rfl⟩ := h
        cases before with
        | nil => exact absurd ((List.cons.inj hrs).1 ▸ hq) hr
        | cons p before =>
          obtain ⟨rfl, rfl⟩ := List.cons.inj hrs
          refine ⟨before, r, after, rfl, (List.forall_mem_cons.mp hbefore).2, hr, ?_, rfl⟩
          rw [List.length_cons]
          omega
    next hq =>
      constructor
      · intro h
        cases h
        exact ⟨[], q, rs, rfl, nofun, hq, rfl, rfl⟩
      · intro h
        obtain ⟨before, r, after, hrs, hbefore, hr, rfl, rfl⟩ := h
        cases before with
        | nil =>
          obtain ⟨rfl, rfl⟩ := List.cons.inj hrs
          rfl
        | cons p before =>
          exact absurd ((List.cons.inj hrs).1 ▸ hbefore p List.mem_cons_self) hq

/-- A matrix is built from its rows, and from no others. -/
theorem ofRows_eq_ok : ofRows rs = .ok m ↔ m.AreRows rs ∧ m.cols = firstLength rs := by
  rw [ofRows_eq]
  constructor
  · intro h
    split at h
    next => cases h
    next hnone =>
      cases h
      exact ⟨⟨rfl, firstRagged_eq_none.mp hnone, rfl⟩, rfl⟩
  · intro h
    obtain ⟨hrows, hcols⟩ := h
    have hnone : firstRagged (firstLength rs) 0 rs = none :=
      firstRagged_eq_none.mpr (hcols ▸ hrows.width)
    rw [hnone, ← hcols, hrows.length_eq, hrows.flatten_eq]

theorem ofRows_eq_error {e : Error} :
    ofRows rs = .error e ↔ ∃ before r after, rs = before ++ r :: after ∧
      (∀ q ∈ before, q.length = firstLength rs) ∧ r.length ≠ firstLength rs ∧
      e = .raggedRow before.length (firstLength rs) r.length := by
  rw [ofRows_eq]
  constructor
  · intro h
    split at h
    next row actual hsome =>
      obtain ⟨before, r, after, hrs, hbefore, hr, rfl, rfl⟩ := firstRagged_eq_some.mp hsome
      cases h
      exact ⟨before, r, after, hrs, hbefore, hr, by rw [Nat.zero_add]⟩
    next => cases h
  · intro h
    obtain ⟨before, r, after, hrs, hbefore, hr, rfl⟩ := h
    have hsome : firstRagged (firstLength rs) 0 rs = some (before.length, r.length) :=
      firstRagged_eq_some.mpr ⟨before, r, after, hrs, hbefore, hr, (Nat.zero_add _).symm, rfl⟩
    rw [hsome]

/-- A matrix that passes its check is built from the rows it gives out. -/
theorem ofRows_toRows {f : β → Except Error Unit} (h : m.check f = .ok ()) :
    ofRows m.toRows = .ok m := by
  obtain ⟨hoccupied, hlen, -⟩ := check_eq_ok.mp h
  obtain ⟨rs, hrs⟩ := exists_areRows hlen
  rw [hrs.toRows_eq, ofRows_eq_ok]
  refine ⟨hrs, ?_⟩
  -- there is a first row
  cases rs with
  | nil => exact absurd hrs.length_eq hoccupied.rows_pos.ne
  | cons r rs => exact (hrs.width r List.mem_cons_self).symm

/-- **Rows go into a matrix and come out again.** A list of rows makes a matrix exactly when all of
them are as long as the first, and is refused otherwise for the first one that is not, with its
place, the length it should have and the one it has. The matrix gives the rows out as they were,
empty ones included. Conversely, a matrix that passes its check is built from its rows. -/
theorem ofRows_round_trip :
    (∀ rs : List (List β),
      ((∃ m, ofRows rs = .ok m) ↔ ∀ r ∈ rs, r.length = firstLength rs) ∧
      (∀ e, ofRows rs = .error e ↔ ∃ before r after, rs = before ++ r :: after ∧
        (∀ q ∈ before, q.length = firstLength rs) ∧ r.length ≠ firstLength rs ∧
        e = .raggedRow before.length (firstLength rs) r.length) ∧
      ∀ m, ofRows rs = .ok m → m.shape = ⟨rs.length, firstLength rs⟩ ∧ m.GivesRows rs) ∧
    ∀ (f : β → Except Error Unit) (m : Matrix β), m.check f = .ok () →
      ofRows m.toRows = .ok m := by
  refine ⟨fun rs => ⟨⟨fun h => ?_, fun h => ?_⟩, fun e => ofRows_eq_error, fun m h => ?_⟩,
    fun f m => ofRows_toRows⟩
  · obtain ⟨m, hm⟩ := h
    obtain ⟨hrows, hcols⟩ := ofRows_eq_ok.mp hm
    exact hcols ▸ hrows.width
  · exact ⟨⟨rs.length, firstLength rs, rs.flatten⟩, ofRows_eq_ok.mpr ⟨⟨rfl, h, rfl⟩, rfl⟩⟩
  · obtain ⟨hrows, hcols⟩ := ofRows_eq_ok.mp h
    refine ⟨?_, hrows.givesRows⟩
    rw [shape, hcols, hrows.length_eq]

/-- A third row that is too short is refused, two empty rows come out as two empty rows, and a
matrix of two rows and three columns is built from its rows. -/
theorem ofRows_round_trip_empty_rows :
    let m : Matrix ℤ := ⟨2, 3, [1, 2, 3, 4, 5, 6]⟩
    ofRows [[1, 2], [3, 4], [(5 : ℤ)]] = .error (.raggedRow 2 2 1) ∧
      (∃ n : Matrix ℤ, ofRows [[], []] = .ok n ∧ n.shape = ⟨2, 0⟩ ∧ n.GivesRows [[], []]) ∧
      m.check (fun _ => .ok ()) = .ok () ∧ ofRows m.toRows = .ok m := by
  intro m
  obtain ⟨hof, hcheck⟩ := @ofRows_round_trip ℤ
  have hm : m.check (fun _ => .ok ()) = .ok () := by cbv
  obtain ⟨n, hn⟩ := (hof [[], []]).1.mpr (by decide)
  refine ⟨((hof _).2.1 _).mpr ⟨[[1, 2], [3, 4]], [5], [], rfl, by decide, by decide, rfl⟩,
    ⟨n, hn, (hof _).2.2 n hn⟩, hm, hcheck _ m hm⟩

end Matrix

end DecisionAlgebra
