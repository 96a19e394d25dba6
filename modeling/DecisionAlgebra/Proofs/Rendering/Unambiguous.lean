import DecisionAlgebra.Proofs.InBounds
import DecisionAlgebra.Proofs.Rendering.Terms

/-!
# What is written can be told apart

A vector is a row of sums in brackets, and a matrix such rows in brackets again, so the number of
brackets in front is the form. Rows are taken apart at commas and matrices at the brackets between
their rows, which no sum has; the sign of a constraint has an equality sign, which no expression
has. So two well-formed expressions, or two constraints made by comparing, that are written alike
have the same layout and the same terms in the same order, up to the writing of coefficients. They
need not be of one kind: a variable is written like the monomial of that variable alone.
-/

namespace DecisionAlgebra

variable {α β : Type} {P : VariableId → Prop}

/-- The characters of rows. -/
def isRowChar : Char → Bool := orAmong isSumChar [',']

/-- The characters of expressions. -/
def isExpressionChar : Char → Bool := orAmong isRowChar ['[', ']']

/-! ## Brackets -/

/-- A text in brackets. -/
def bracketed (s : String) : String := "[" ++ s ++ "]"

theorem bracketed_inj {s t : String} (h : bracketed s = bracketed t) : s = t :=
  (String.append_right_inj _).mp ((String.append_left_inj _).mp h)

theorem ne_bracketed {s t : String} (hs : SpelledIn isRowChar s) : s ≠ bracketed t := by
  intro h
  have hbracket : '[' ∈ (bracketed t).toList := by
    rw [bracketed, String.toList_append, String.toList_append]
    exact List.mem_append_left _ (List.mem_append_left _ List.mem_cons_self)
  exact hs.notMem rfl (h ▸ hbracket)

theorem SpelledIn.bracketed {s : String} (hs : SpelledIn isExpressionChar s) :
    SpelledIn isExpressionChar (bracketed s) :=
  (SpelledIn.append (by decide) hs).append (by decide)

/-! ## Rows -/

section Rows

variable [One α] [Neg α] [BEq α] [Numeral α]

/-- Sums with commas between them. -/
def rowText (ss : List (Scalar α)) : String := String.intercalate ", " (ss.map Scalar.text)

/-- Rows with brackets between them. -/
def rowsText (rs : List (List (Scalar α))) : String := String.intercalate "], [" (rs.map rowText)

/-- At least one scalar, and every scalar well-formed with defined variables. -/
structure IsRow (ss : List (Scalar α)) : Prop where
  ne_nil : ss ≠ []
  each : ∀ s ∈ ss, s.FactorsIn fun id => id.isDefined = true

variable [Legible α] {ss ts : List (Scalar α)} {rs us : List (List (Scalar α))}

theorem IsRow.spelledIn_text (hss : IsRow ss) : SpelledIn isRowChar (rowText ss) :=
  SpelledIn.intercalate (by decide) fun s hs => (hss.each s hs).spelledIn_text.orAmong _

theorem IsRow.writtenAlike (hss : IsRow ss) (hts : IsRow ts) (h : rowText ss = rowText ts) :
    List.Forall₂ Scalar.WrittenAlike ss ts := by
  refine forall₂_of_intercalate_eq [] [' '] rfl List.not_mem_nil rfl
    (fun s hs => (hss.each s hs).spelledIn_text) (fun t ht => (hts.each t ht).spelledIn_text)
    hss.ne_nil hts.ne_nil (fun s hs t ht => ?_) h
  exact Scalar.writtenAlike_of_text_eq (hss.each s hs) (hts.each t ht)

theorem spelledIn_rowsText (hrs : ∀ r ∈ rs, IsRow r) :
    SpelledIn isExpressionChar (rowsText rs) :=
  SpelledIn.intercalate (by decide) fun r hr => (hrs r hr).spelledIn_text.orAmong _

theorem writtenAlike_of_rowsText_eq (hrs : ∀ r ∈ rs, IsRow r) (hus : ∀ u ∈ us, IsRow u)
    (hrsne : rs ≠ []) (husne : us ≠ []) (h : rowsText rs = rowsText us) :
    List.Forall₂ (List.Forall₂ Scalar.WrittenAlike) rs us := by
  refine forall₂_of_intercalate_eq [] [',', ' ', '['] rfl List.not_mem_nil rfl
    (fun r hr => (hrs r hr).spelledIn_text) (fun u hu => (hus u hu).spelledIn_text) hrsne husne
    (fun r hr u hu => ?_) h
  exact (hrs r hr).writtenAlike (hus u hu)

end Rows

/-! ## Expressions -/

namespace Expression

/-- The elements of an expression by rows. -/
structure AreRows (e : Expression α) (rs : List (List (Scalar α))) : Prop where
  length_eq : rs.length = e.dims.rows
  width : ∀ r ∈ rs, r.length = e.dims.cols
  flatten_eq : rs.flatten = e.elements

section Rows

variable [One α] {e : Expression α} {rs : List (List (Scalar α))}

theorem FactorsIn.isRow (he : e.FactorsIn fun id => id.isDefined = true) : IsRow e.elements :=
  ⟨he.ne_nil, he.each⟩

theorem AreRows.ne_nil (hrs : e.AreRows rs) (he : e.FactorsIn P) : rs ≠ [] := by
  rintro rfl
  exact he.ne_nil hrs.flatten_eq.symm

theorem AreRows.isRow (hrs : e.AreRows rs) (he : e.FactorsIn fun id => id.isDefined = true) :
    ∀ r ∈ rs, IsRow r := by
  intro r hr
  refine ⟨?_, fun s hs => he.each s (hrs.flatten_eq ▸ List.mem_flatten.mpr ⟨r, hr, hs⟩)⟩
  rintro rfl
  -- with no columns there would be no elements
  have hcols : 0 < e.dims.cols := Nat.pos_of_mul_pos_left (size_pos he)
  exact hcols.ne (hrs.width [] hr)

variable [Numeral α]

/-- The same form and shape, and elements that are written alike. -/
structure WrittenAlike (a b : Expression α) : Prop where
  form_eq : a.form = b.form
  dims_eq : a.dims = b.dims
  elements : List.Forall₂ Scalar.WrittenAlike a.elements b.elements

/-- Rows that are written alike are as many and as long. -/
theorem AreRows.writtenAlike {a b : Expression α} (hform : a.form = b.form)
    {us : List (List (Scalar α))} (hne : rs ≠ []) (hrs : a.AreRows rs) (hus : b.AreRows us)
    (h : List.Forall₂ (List.Forall₂ Scalar.WrittenAlike) rs us) : a.WrittenAlike b := by
  have hrows : a.dims.rows = b.dims.rows := by rw [← hrs.length_eq, ← hus.length_eq, h.length_eq]
  have hcols : a.dims.cols = b.dims.cols := by
    cases h with
    | nil => exact absurd rfl hne
    | cons hrow _ =>
      rw [← hrs.width _ List.mem_cons_self, ← hus.width _ List.mem_cons_self, hrow.length_eq]
  have hdims : ∀ {s t : Shape}, s.rows = t.rows → s.cols = t.cols → s = t := by
    rintro ⟨_, _⟩ ⟨_, _⟩ rfl rfl
    rfl
  refine ⟨hform, hdims hrows hcols, ?_⟩
  rw [← hrs.flatten_eq, ← hus.flatten_eq]
  exact List.rel_flatten h

end Rows

section Texts

variable [One α] [Neg α] [BEq α] [Numeral α]

/-- A column is written as one row in brackets. -/
theorem text_column (k : Kind) (xs : List (k.Entry α)) :
    Column.text (fun x => (Scalar.ofEntry k x).text) ⟨xs⟩ =
      bracketed (rowText (xs.map (Scalar.ofEntry k))) := by
  rw [rowText, List.map_map]
  rfl

theorem text_vector (k : Kind) (c : Column (k.Entry α)) :
    (vector k c).text = some (bracketed (rowText (vector k c).elements)) :=
  congrArg some (text_column k c.entries)

/-- A matrix is written as its rows in brackets, in brackets. -/
theorem exists_text_matrix {k : Kind} {m : Matrix (k.Entry α)} (h : (matrix k m).FactorsIn P) :
    ∃ rs, (matrix k m).AreRows rs ∧
      (matrix k m).text = some (bracketed (bracketed (rowsText rs))) := by
  have hlen : m.entries.length = m.rows * m.cols := (List.length_map _).symm.trans h.length_eq
  obtain ⟨xss, hcut⟩ := Matrix.exists_cutRows? m.rows hlen.ge
  obtain ⟨hcount, hwidth, hflat⟩ := Matrix.cutRows?_eq_some hcut hlen
  have hrows : (matrix k m).AreRows (xss.map (·.map (Scalar.ofEntry k))) := by
    refine ⟨(List.length_map _).trans hcount, ?_, ?_⟩
    · exact List.forall_mem_map.mpr fun xs hxs => (List.length_map _).trans (hwidth xs hxs)
    · rw [← List.map_flatten, hflat]
      rfl
  refine ⟨_, hrows, ?_⟩
  have hne : (xss.map (·.map (Scalar.ofEntry k))).map rowText ≠ [] :=
    fun hnil => hrows.ne_nil h (List.map_eq_nil_iff.mp hnil)
  -- the brackets around the rows are those around the whole and those between rows
  have hbody := calc
    String.intercalate ", " (xss.map fun r => Column.text (fun x => (Scalar.ofEntry k x).text) ⟨r⟩)
    _ = String.intercalate ", "
        (((xss.map (·.map (Scalar.ofEntry k))).map rowText).map fun s => "[" ++ s ++ "]") := by
      rw [List.map_map, List.map_map]
      exact congrArg _ (List.map_congr_left fun xs _ => text_column k xs)
    _ = bracketed (rowsText (xss.map (·.map (Scalar.ofEntry k)))) := texts_bracketed "[" "]" hne
  rw [text, Matrix.text, hcut, Option.bind_eq_bind, Option.bind_some, hbody]
  rfl

variable [Legible α]

theorem FactorsIn.spelledIn_text {e : Expression α}
    (he : e.FactorsIn fun id => id.isDefined = true) {s : String} (hs : e.text = some s) :
    SpelledIn isExpressionChar s := by
  cases e with
  | scalar s =>
    cases hs
    exact ((factorsIn_scalar.mp he).spelledIn_text.orAmong _).orAmong _
  | vector k c =>
    cases (text_vector k c).symm.trans hs
    exact (he.isRow.spelledIn_text.orAmong _).bracketed
  | matrix k m =>
    obtain ⟨rs, hrs, htext⟩ := exists_text_matrix he
    cases htext.symm.trans hs
    exact (spelledIn_rowsText (hrs.isRow he)).bracketed.bracketed

/-- **An expression is known from its text**, up to the kind of its elements and the writing of
coefficients. -/
theorem writtenAlike_of_text_eq {a b : Expression α}
    (ha : a.FactorsIn fun id => id.isDefined = true)
    (hb : b.FactorsIn fun id => id.isDefined = true) {s : String} (has : a.text = some s)
    (hbs : b.text = some s) : a.WrittenAlike b := by
  have hsum : ∀ {x : Scalar α}, (scalar x).FactorsIn (fun id => id.isDefined = true) →
      SpelledIn isRowChar x.text := fun hx => (factorsIn_scalar.mp hx).spelledIn_text.orAmong _
  cases a with
  | scalar x =>
    cases has
    cases b with
    | scalar y =>
      have halike := Scalar.writtenAlike_of_text_eq (factorsIn_scalar.mp ha)
        (factorsIn_scalar.mp hb) (Option.some.inj hbs).symm
      exact ⟨rfl, rfl, .cons halike .nil⟩
    | vector l d =>
      rw [text_vector, Option.some.injEq] at hbs
      exact absurd hbs.symm (ne_bracketed (hsum ha))
    | matrix l n =>
      obtain ⟨us, -, htext⟩ := exists_text_matrix hb
      rw [htext, Option.some.injEq] at hbs
      exact absurd hbs.symm (ne_bracketed (hsum ha))
  | vector k c =>
    cases (text_vector k c).symm.trans has
    cases b with
    | scalar y => exact absurd (Option.some.inj hbs) (ne_bracketed (hsum hb))
    | vector l d =>
      rw [text_vector, Option.some.injEq] at hbs
      have halike := ha.isRow.writtenAlike hb.isRow (bracketed_inj hbs).symm
      have hsize := halike.length_eq
      rw [elements, elements, List.length_map, List.length_map] at hsize
      exact ⟨rfl, congrArg Shape.column hsize, halike⟩
    | matrix l n =>
      obtain ⟨us, -, htext⟩ := exists_text_matrix hb
      rw [htext, Option.some.injEq] at hbs
      exact absurd (bracketed_inj hbs).symm (ne_bracketed ha.isRow.spelledIn_text)
  | matrix k m =>
    obtain ⟨rs, hrs, htext⟩ := exists_text_matrix ha
    cases htext.symm.trans has
    cases b with
    | scalar y => exact absurd (Option.some.inj hbs) (ne_bracketed (hsum hb))
    | vector l d =>
      rw [text_vector, Option.some.injEq] at hbs
      exact absurd (bracketed_inj hbs) (ne_bracketed hb.isRow.spelledIn_text)
    | matrix l n =>
      obtain ⟨us, hus, htext'⟩ := exists_text_matrix hb
      rw [htext', Option.some.injEq] at hbs
      refine hrs.writtenAlike rfl (hrs.ne_nil ha) hus ?_
      exact writtenAlike_of_rowsText_eq (hrs.isRow ha) (hus.isRow hb) (hrs.ne_nil ha)
        (hus.ne_nil hb) (bracketed_inj (bracketed_inj hbs)).symm

end Texts

end Expression

/-! ## Constraints -/

/-- The sign of a sense and the blanks around it, up to the equality sign in it. -/
def Sense.front : Sense → List Char
  | lessEqual => [' ', '<']
  | greaterEqual => [' ', '>']
  | equal => [' ']

/-- What stands before the equality sign gives away the left side and the sense. -/
theorem Sense.front_inj {xs ys : List Char} {s t : Sense} (h : xs ++ s.front = ys ++ t.front) :
    xs = ys ∧ s = t := by
  -- where the senses differ, so do the last characters
  have hlast := congrArg List.getLast? h
  cases s <;> cases t
  case lessEqual.lessEqual => exact ⟨List.append_cancel_right h, rfl⟩
  case greaterEqual.greaterEqual => exact ⟨List.append_cancel_right h, rfl⟩
  case equal.equal => exact ⟨List.append_cancel_right h, rfl⟩
  all_goals simp [front] at hlast

namespace Constraint

variable [One α] [Neg α] [BEq α] [Numeral α]

/-- A constraint of any form is written as its sides with the sign between them. -/
theorem text_of_sides {c : Constraint α} {l r : String} (hl : c.left.text = some l)
    (hr : c.right.text = some r) : c.text = some (l ++ " " ++ c.sense.symbol ++ " " ++ r) := by
  have hgrid : ∀ {g : GridConstraint α}, g.left.text = some l → g.right.text = some r →
      g.text = some (l ++ " " ++ g.sense.symbol ++ " " ++ r) := by
    intro g hgl hgr
    rw [GridConstraint.text, hgl, hgr]
    rfl
  cases c with
  | scalar c =>
    cases hl
    cases hr
    rfl
  | vector c => exact hgrid hl hr
  | matrix c => exact hgrid hl hr

theorem toList_text (s : Sense) (l r : String) :
    (l ++ " " ++ s.symbol ++ " " ++ r).toList =
      (l.toList ++ s.front) ++ '=' :: ' ' :: r.toList := by
  cases s <;> simp [Sense.symbol, Sense.front]

/-- One sense, and sides that are written alike. -/
structure WrittenAlike (c d : Constraint α) : Prop where
  sense_eq : c.sense = d.sense
  left : c.left.WrittenAlike d.left
  right : c.right.WrittenAlike d.right

variable [Legible α]

/-- A valid constraint has a text, of which the first equality sign is that of its sense. -/
theorem exists_text {c : Constraint α} (hc : c.check = .ok ()) :
    ∃ l r, c.left.text = some l ∧ c.right.text = some r ∧ '=' ∉ l.toList ++ c.sense.front ∧
      c.text = some (l ++ " " ++ c.sense.symbol ++ " " ++ r) := by
  obtain ⟨hl, hr, -⟩ := exists_constraints? hc
  obtain ⟨l, hltext⟩ := hl.exists_text
  obtain ⟨r, hrtext⟩ := hr.exists_text
  refine ⟨l, r, hltext, hrtext, fun hmem => ?_, text_of_sides hltext hrtext⟩
  rcases List.mem_append.mp hmem with hside | hfront
  · exact (hl.spelledIn_text hltext).notMem rfl hside
  · exact absurd hfront (by cases c.sense <;> decide)

/-- **A constraint is known from its text**, up to the writing of its sides. -/
theorem writtenAlike_of_text_eq {c d : Constraint α} (hc : c.check = .ok ())
    (hd : d.check = .ok ()) {s : String} (hcs : c.text = some s) (hds : d.text = some s) :
    c.WrittenAlike d := by
  obtain ⟨hcl, hcr, -⟩ := exists_constraints? hc
  obtain ⟨hdl, hdr, -⟩ := exists_constraints? hd
  obtain ⟨l, r, hl, hr, hceq, hctext⟩ := exists_text hc
  obtain ⟨l', r', hl', hr', hdeq, hdtext⟩ := exists_text hd
  have hchars := congrArg String.toList
    (Option.some.inj ((hctext.symm.trans hcs).trans (hds.symm.trans hdtext)))
  rw [toList_text, toList_text] at hchars
  obtain ⟨hfront, hright⟩ := append_cons_inj hceq hdeq hchars
  obtain ⟨hleft, hsense⟩ := Sense.front_inj hfront
  obtain rfl := String.toList_inj.mp hleft
  obtain rfl := String.toList_inj.mp (List.cons.inj hright).2
  exact ⟨hsense, Expression.writtenAlike_of_text_eq hcl hdl hl hl',
    Expression.writtenAlike_of_text_eq hcr hdr hr hr'⟩

end Constraint

/-! ## 64-bit numbers -/

/-- **Texts are unambiguous.** Two valid expressions over 64-bit numbers that are written alike have
one form and one shape, and elements with as many terms, which agree in the identifiers of their
factors in order, in the exponents and in the texts of the coefficients. Two constraints made by
comparing that are written alike have one sense and sides that agree in this way. -/
theorem texts_unambiguous :
    (∀ a b : Expression Float, a.check = .ok () → b.check = .ok () →
      ∃ s t, a.text = some s ∧ b.text = some t ∧ (s = t → a.WrittenAlike b)) ∧
    ∀ (l r l' r' : Expression Float) (sense sense' : Sense) (c c' : Constraint Float),
      (l.compare r sense).outcome = .ok c → (l'.compare r' sense').outcome = .ok c' →
        ∃ s t, c.text = some s ∧ c'.text = some t ∧ (s = t → c.WrittenAlike c') := by
  refine ⟨fun a b ha hb => ?_, fun l r l' r' sense sense' c c' hc hc' => ?_⟩
  · have hain := Expression.check_eq_ok.mp ha
    have hbin := Expression.check_eq_ok.mp hb
    obtain ⟨s, hs⟩ := hain.exists_text
    obtain ⟨t, ht⟩ := hbin.exists_text
    refine ⟨s, t, hs, ht, ?_⟩
    rintro rfl
    exact Expression.writtenAlike_of_text_eq hain hbin hs ht
  · have hcheck := ((l.ensures_compare r sense).value c hc).1
    have hcheck' := ((l'.ensures_compare r' sense').value c' hc').1
    obtain ⟨_, _, -, -, -, hs⟩ := Constraint.exists_text hcheck
    obtain ⟨_, _, -, -, -, ht⟩ := Constraint.exists_text hcheck'
    refine ⟨_, _, hs, ht, fun hst => ?_⟩
    exact Constraint.writtenAlike_of_text_eq hcheck hcheck' hs (hst ▸ ht)

/-- A variable and the monomial of that variable alone are both written as the variable, on their
own and on the sides of a constraint. -/
theorem texts_unambiguous_variable :
    let x : Variable Float := .numbered 0
    let m : Monomial Float := ⟨1, [x], [1]⟩
    let a : Expression Float := .scalar (.variable x)
    let b : Expression Float := .scalar (.monomial m)
    let c : Constraint Float := .scalar ⟨.variable x, .equal, .monomial m⟩
    let c' : Constraint Float := .scalar ⟨.monomial m, .equal, .variable x⟩
    (a.text = some "x_0" ∧ b.text = some "x_0" ∧ a.WrittenAlike b) ∧
      (a.compare b .equal).outcome = .ok c ∧ (b.compare a .equal).outcome = .ok c' ∧
      c.text = some "x_0 = x_0" ∧ c'.text = some "x_0 = x_0" ∧ c.WrittenAlike c' := by
  intro x m a b c c'
  obtain ⟨hexpressions, hconstraints⟩ := texts_unambiguous
  have ha : a.text = some "x_0" := by decide
  have hb : b.text = some "x_0" := by decide
  have hc : c.text = some "x_0 = x_0" := by decide
  have hc' : c'.text = some "x_0 = x_0" := by decide
  have hcompare : (a.compare b .equal).outcome = .ok c := rfl
  have hcompare' : (b.compare a .equal).outcome = .ok c' := rfl
  obtain ⟨s, t, hs, ht, halike⟩ := hexpressions a b rfl rfl
  obtain ⟨s', t', hs', ht', halike'⟩ := hconstraints _ _ _ _ _ _ _ _ hcompare hcompare'
  cases ha.symm.trans hs
  cases hb.symm.trans ht
  cases hc.symm.trans hs'
  cases hc'.symm.trans ht'
  exact ⟨⟨ha, hb, halike rfl⟩, hcompare, hcompare', hc, hc', halike' rfl⟩

end DecisionAlgebra
