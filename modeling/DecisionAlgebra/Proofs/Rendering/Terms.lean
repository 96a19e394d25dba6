import DecisionAlgebra.Proofs.Rendering.Numerals
import DecisionAlgebra.Proofs.WellFormed

/-!
# How terms and sums are written

A factor starts with an `x`, and no numeral has one. So a term with no `x` is a number, and in any
other term the first `x` is where the coefficient ends, whether that is written out, a bare minus or
nothing at all. Factors have no blanks, and terms no pluses. A scalar of any kind is written as the
sum of its terms, so its text gives these away in their order, each up to the writing of its
coefficient.
-/

namespace DecisionAlgebra

variable {α : Type}

/-! ## Characters -/

/-- The characters of variables. -/
def isNameChar : Char → Bool := orAmong Char.isDigit ['x', '_']

/-- The characters of factors. -/
def isFactorChar : Char → Bool := orAmong isNameChar ['^']

/-- The characters of what stands before the factors of a term. -/
def isCoefficientChar : Char → Bool := orAmong isNumeralChar [' ']

/-- The characters of terms. -/
def isTermChar (c : Char) : Bool := isCoefficientChar c || isFactorChar c

/-- The characters of sums. -/
def isSumChar : Char → Bool := orAmong isTermChar ['+']

theorem isTermChar_of_isCoefficientChar (c : Char) (h : isCoefficientChar c = true) :
    isTermChar c = true := by
  rw [isTermChar, h, Bool.true_or]

theorem isTermChar_of_isFactorChar (c : Char) (h : isFactorChar c = true) :
    isTermChar c = true := by
  rw [isTermChar, h, Bool.or_true]

/-! ## Factors -/

theorem Variable.spelledIn_text {v : Variable α} (hv : v.id.isDefined = true) :
    SpelledIn isNameChar v.text := by
  rw [text, VariableId.text, if_pos hv]
  exact SpelledIn.append (by decide) ((spelledIn_nat v.id.index).orAmong _)

theorem Variable.text_inj {v w : Variable α} (hv : v.id.isDefined = true)
    (hw : w.id.isDefined = true) (h : v.text = w.text) : v.id = w.id := by
  rw [text, text, VariableId.text, VariableId.text, if_pos hv, if_pos hw, String.append_right_inj]
    at h
  exact congrArg VariableId.mk (toString_nat_inj h)

namespace Monomial

theorem spelledIn_factorText {f : Variable α × UInt32} (hf : f.1.id.isDefined = true) :
    SpelledIn isFactorChar (factorText f) := by
  have hname : SpelledIn isFactorChar f.1.text := (Variable.spelledIn_text hf).orAmong _
  have hexponent : SpelledIn isFactorChar (toString f.2.toNat) :=
    ((spelledIn_nat f.2.toNat).orAmong _).orAmong _
  unfold factorText
  split
  next => exact hname
  next => exact (hname.append (by decide)).append hexponent

theorem toList_factorText_power (v : Variable α) (n : Nat) :
    (v.text ++ "^" ++ toString n).toList = v.text.toList ++ '^' :: (toString n).toList := by
  rw [String.toList_append, String.toList_append, List.append_assoc]
  rfl

/-- A variable and its exponent are known from the text of the factor: an exponent is one exactly
when there is no caret. -/
theorem factorText_inj {f g : Variable α × UInt32} (hf : f.1.id.isDefined = true)
    (hg : g.1.id.isDefined = true) (h : factorText f = factorText g) :
    f.1.id = g.1.id ∧ f.2 = g.2 := by
  have hfname : '^' ∉ f.1.text.toList := (Variable.spelledIn_text hf).notMem rfl
  have hgname : '^' ∉ g.1.text.toList := (Variable.spelledIn_text hg).notMem rfl
  have hchars := congrArg String.toList h
  unfold factorText at h hchars
  split at h <;> split at h
  next hf1 hg1 => exact ⟨Variable.text_inj hf hg h, hf1.trans hg1.symm⟩
  next hf1 hg1 =>
    rw [if_pos hf1, if_neg hg1, toList_factorText_power] at hchars
    exact absurd (hchars ▸ List.mem_append_right _ List.mem_cons_self) hfname
  next hf1 hg1 =>
    rw [if_neg hf1, if_pos hg1, toList_factorText_power] at hchars
    exact absurd (hchars ▸ List.mem_append_right _ List.mem_cons_self) hgname
  next hf1 hg1 =>
    rw [if_neg hf1, if_neg hg1, toList_factorText_power, toList_factorText_power] at hchars
    obtain ⟨hname, hexponent⟩ := append_cons_inj hfname hgname hchars
    exact ⟨Variable.text_inj hf hg (String.toList_inj.mp hname),
      UInt32.toNat_inj.mp (toString_nat_inj (String.toList_inj.mp hexponent))⟩

/-- Factors start with the letter of variables. -/
theorem exists_toList_factorText (f : Variable α × UInt32) :
    ∃ rest, (factorText f).toList = 'x' :: rest := by
  unfold factorText
  split
  next => exact ⟨_, by rw [Variable.text, String.toList_append]; rfl⟩
  next =>
    rw [toList_factorText_power, Variable.text, String.toList_append]
    exact ⟨_, rfl⟩

theorem exists_toList_factors {fs : List (Variable α × UInt32)} (hne : fs ≠ []) :
    ∃ rest, (String.intercalate " " (fs.map factorText)).toList = 'x' :: rest := by
  cases fs with
  | nil => exact absurd rfl hne
  | cons f fs =>
    obtain ⟨rest, hrest⟩ := exists_toList_factorText f
    cases fs with
    | nil =>
      rw [List.map_cons, List.map_nil, String.intercalate_singleton]
      exact ⟨rest, hrest⟩
    | cons g gs =>
      rw [String.toList_intercalate, List.map_cons, List.map_cons, List.map_cons, List.map_cons,
        List.intercalate_cons_cons, hrest]
      exact ⟨_, rfl⟩

theorem factors_ne_nil {m : Monomial α} (hm : m.exponents.length = m.vars.length)
    (hne : m.vars ≠ []) : m.factors ≠ [] :=
  fun hnil => hne (by rw [vars_eq hm, hnil, List.map_nil])

/-- Variables and exponents are known from the text of a product. -/
theorem factors_inj {fs gs : List (Variable α × UInt32)}
    (hfs : ∀ f ∈ fs, f.1.id.isDefined = true) (hgs : ∀ g ∈ gs, g.1.id.isDefined = true)
    (hfne : fs ≠ []) (hgne : gs ≠ [])
    (h : String.intercalate " " (fs.map factorText) = String.intercalate " " (gs.map factorText)) :
    fs.map (·.1.id) = gs.map (·.1.id) ∧ fs.map (·.2) = gs.map (·.2) := by
  have hfactors : List.Forall₂ (fun f g => f.1.id = g.1.id ∧ f.2 = g.2) fs gs :=
    forall₂_of_intercalate_eq [] [] rfl List.not_mem_nil rfl
      (fun f hf => spelledIn_factorText (hfs f hf)) (fun g hg => spelledIn_factorText (hgs g hg))
      hfne hgne (fun f hf g hg => factorText_inj (hfs f hf) (hgs g hg)) h
  exact ⟨(map_eq_map_of_forall₂ (hfactors.imp fun _ _ hfg => hfg.1.symm)).symm,
    (map_eq_map_of_forall₂ (hfactors.imp fun _ _ hfg => hfg.2.symm)).symm⟩

/-! ## Coefficients -/

variable [One α] [Neg α] [BEq α] [Numeral α]

/-- The three ways to write a coefficient before factors. -/
theorem coefficientText_cases [Legible α] (c : α) :
    (coefficientText c = "-" ∧ numeral c = numeral (-1 : α)) ∨
    (coefficientText c = "" ∧ numeral c = numeral (1 : α)) ∨
    coefficientText c = numeral c ++ " " := by
  unfold coefficientText
  split
  next h => exact .inl ⟨rfl, Legible.numeral_of_beq_neg_one c h⟩
  next =>
    split
    next h => exact .inr (.inl ⟨rfl, Legible.numeral_of_beq_one c h⟩)
    next => exact .inr (.inr rfl)

theorem spelledIn_coefficientText [Legible α] (c : α) :
    SpelledIn isCoefficientChar (coefficientText c) := by
  rcases coefficientText_cases c with ⟨h, -⟩ | ⟨h, -⟩ | h <;> rw [h]
  · decide
  · decide
  · exact SpelledIn.append ((Legible.spelledIn c).orAmong _) (by decide)

/-- Only a coefficient that is written out is followed by a blank. -/
theorem blank_mem_coefficientText {c : α} (h : coefficientText c = numeral c ++ " ") :
    ' ' ∈ (coefficientText c).toList := by
  rw [h, String.toList_append]
  exact List.mem_append_right _ List.mem_cons_self

theorem coefficientText_inj [Legible α] {c d : α} (h : coefficientText c = coefficientText d) :
    numeral c = numeral d := by
  rcases coefficientText_cases c with ⟨hc, hnc⟩ | ⟨hc, hnc⟩ | hc
  · -- a bare minus
    rcases coefficientText_cases d with ⟨-, hnd⟩ | ⟨hd, -⟩ | hd
    · exact hnc.trans hnd.symm
    · exact absurd (hc.symm.trans (h.trans hd)) (by decide)
    · exact absurd (hc ▸ h ▸ blank_mem_coefficientText hd) (by decide)
  · -- nothing
    rcases coefficientText_cases d with ⟨hd, -⟩ | ⟨-, hnd⟩ | hd
    · exact absurd (hc.symm.trans (h.trans hd)) (by decide)
    · exact hnc.trans hnd.symm
    · exact absurd (hc ▸ h ▸ blank_mem_coefficientText hd) (by decide)
  · -- the coefficient itself
    have hblank := blank_mem_coefficientText hc
    rcases coefficientText_cases d with ⟨hd, -⟩ | ⟨hd, -⟩ | hd
    · exact absurd (hd ▸ h ▸ hblank) (by decide)
    · exact absurd (hd ▸ h ▸ hblank) (by decide)
    · rw [hc, hd] at h
      exact (String.append_left_inj _).mp h

/-! ## Monomials -/

/-- The same variables with the same exponents in the same order, and coefficients with one text. -/
structure WrittenAlike (m n : Monomial α) : Prop where
  ids_eq : m.vars.map (·.id) = n.vars.map (·.id)
  exponents_eq : m.exponents = n.exponents
  coefficient_eq : numeral m.coefficient = numeral n.coefficient

theorem text_of_vars_nil {m : Monomial α} (h : m.vars = []) : m.text = numeral m.coefficient :=
  if_pos (List.isEmpty_iff.mpr h)

/-- The first `x` of a term with factors. -/
theorem exists_toList_text {m : Monomial α} (hm : m.exponents.length = m.vars.length)
    (hne : m.vars ≠ []) :
    ∃ rest, (String.intercalate " " (m.factors.map factorText)).toList = 'x' :: rest ∧
      m.text.toList = (coefficientText m.coefficient).toList ++ 'x' :: rest := by
  obtain ⟨rest, hrest⟩ := exists_toList_factors (factors_ne_nil hm hne)
  refine ⟨rest, hrest, ?_⟩
  rw [text, if_neg (fun h => hne (List.isEmpty_iff.mp h)), String.toList_append, hrest]

variable [Legible α]

theorem FactorsIn.spelledIn_text {m : Monomial α}
    (hm : m.FactorsIn fun id => id.isDefined = true) : SpelledIn isTermChar m.text := by
  unfold text
  split
  next =>
    exact ((Legible.spelledIn m.coefficient).orAmong _).mono isTermChar_of_isCoefficientChar
  next =>
    have hcoefficient := spelledIn_coefficientText m.coefficient
    refine (hcoefficient.mono isTermChar_of_isCoefficientChar).append ?_
    refine SpelledIn.intercalate (by decide) fun f hf => ?_
    exact (spelledIn_factorText (hm.of_mem hf)).mono isTermChar_of_isFactorChar

/-- **A term is known from its text**, up to the writing of its coefficient. -/
theorem writtenAlike_of_text_eq {m n : Monomial α}
    (hm : m.FactorsIn fun id => id.isDefined = true)
    (hn : n.FactorsIn fun id => id.isDefined = true) (h : m.text = n.text) :
    m.WrittenAlike n := by
  have hx : ∀ c : α, 'x' ∉ (numeral c).toList := fun c => (Legible.spelledIn c).notMem rfl
  have hx' : ∀ c : α, 'x' ∉ (coefficientText c).toList :=
    fun c => (spelledIn_coefficientText c).notMem rfl
  by_cases hmnil : m.vars = [] <;> by_cases hnnil : n.vars = []
  · rw [text_of_vars_nil hmnil, text_of_vars_nil hnnil] at h
    have hexponents : ∀ {k : Monomial α}, k.exponents.length = k.vars.length → k.vars = [] →
        k.exponents = [] :=
      fun hk hnil => List.eq_nil_of_length_eq_zero (by rw [hk, hnil]; rfl)
    refine ⟨by rw [hmnil, hnnil], ?_, h⟩
    rw [hexponents hm.length_eq hmnil, hexponents hn.length_eq hnnil]
  · obtain ⟨rest, -, htext⟩ := exists_toList_text hn.length_eq hnnil
    rw [← h, text_of_vars_nil hmnil] at htext
    exact absurd (htext ▸ List.mem_append_right _ List.mem_cons_self) (hx m.coefficient)
  · obtain ⟨rest, -, htext⟩ := exists_toList_text hm.length_eq hmnil
    rw [h, text_of_vars_nil hnnil] at htext
    exact absurd (htext ▸ List.mem_append_right _ List.mem_cons_self) (hx n.coefficient)
  · obtain ⟨rest, hrest, htext⟩ := exists_toList_text hm.length_eq hmnil
    obtain ⟨rest', hrest', htext'⟩ := exists_toList_text hn.length_eq hnnil
    rw [h, htext'] at htext
    obtain ⟨hcoefficient, rfl⟩ := append_cons_inj (hx' _) (hx' _) htext
    obtain ⟨hids, hexponents⟩ := factors_inj (fun f => hm.of_mem) (fun g => hn.of_mem)
      (factors_ne_nil hm.length_eq hmnil) (factors_ne_nil hn.length_eq hnnil)
      (String.toList_inj.mp (hrest.trans hrest'.symm))
    refine ⟨?_, ?_, coefficientText_inj (String.toList_inj.mp hcoefficient.symm)⟩
    · rw [vars_eq hm.length_eq, vars_eq hn.length_eq, List.map_map, List.map_map]
      exact hids
    · rw [← List.map_snd_zip hm.length_eq.le, ← List.map_snd_zip hn.length_eq.le]
      exact hexponents

end Monomial

/-! ## Sums -/

namespace Scalar

variable [One α] [Neg α] [BEq α] [Numeral α]

/-- The terms are written alike, one by one. -/
def WrittenAlike (s t : Scalar α) : Prop :=
  List.Forall₂ Monomial.WrittenAlike s.toMonomials t.toMonomials

variable [Legible α]

/-- A scalar of any kind is written as the sum of its terms. -/
theorem text_eq (s : Scalar α) :
    s.text = String.intercalate " + " (s.toMonomials.map Monomial.text) := by
  cases s with
  | constant c => exact String.intercalate_singleton.symm
  | «variable» v =>
    -- a single factor, whose coefficient and exponent are one and not written
    have hfactor : (Monomial.term v (1 : α)).text = Monomial.coefficientText (1 : α) ++ v.text :=
      congrArg (Monomial.coefficientText (1 : α) ++ ·) String.intercalate_singleton
    have hone : Monomial.coefficientText (1 : α) = "" := by
      rw [Monomial.coefficientText, Legible.one_beq_neg_one, Legible.one_beq_one]
      rfl
    rw [toMonomials, List.map_cons, List.map_nil, String.intercalate_singleton, hfactor, hone,
      String.empty_append]
    rfl
  | monomial m => exact String.intercalate_singleton.symm
  | polynomial p => rfl

theorem FactorsIn.spelledIn_text {s : Scalar α}
    (hs : s.FactorsIn fun id => id.isDefined = true) : SpelledIn isSumChar s.text := by
  rw [text_eq]
  refine SpelledIn.intercalate (by decide) fun m hm => ?_
  exact (hs.each m hm).spelledIn_text.orAmong _

/-- **The terms of a scalar are known from its text.** -/
theorem writtenAlike_of_text_eq {s t : Scalar α}
    (hs : s.FactorsIn fun id => id.isDefined = true)
    (ht : t.FactorsIn fun id => id.isDefined = true) (h : s.text = t.text) :
    s.WrittenAlike t := by
  rw [text_eq, text_eq] at h
  refine forall₂_of_intercalate_eq [' '] [' '] rfl (by decide) rfl
    (fun m hm => (hs.each m hm).spelledIn_text) (fun n hn => (ht.each n hn).spelledIn_text)
    hs.ne_nil ht.ne_nil (fun m hm n hn => ?_) h
  exact Monomial.writtenAlike_of_text_eq (hs.each m hm) (ht.each n hn)

end Scalar

end DecisionAlgebra
