import DecisionAlgebra.Environment
import DecisionAlgebra.Proofs.Grids

/-!
# Runs of an environment

An environment is asked for single variables, columns and matrices, in any order and as often as
wanted. One step moves its counter by as many variables as are asked for, and these have the numbers
in between, by rows. So over a whole run the variables are numbered from zero without gaps, and the
counter is what has been asked for so far.

Environments share nothing. Where several take turns, what each of them makes is what it would make
of its own requests alone.
-/

namespace DecisionAlgebra

variable {α ι τ : Type}

/-- The free variable of a number. -/
def Variable.unbounded [Extended α] (n : Nat) : Variable α :=
  ⟨⟨n⟩, .continuous, Extended.negInfinity, Extended.infinity⟩

/-! ## Requests -/

/-- What an environment can be asked for. -/
inductive Request (α : Type) where
  | free
  | binary
  | bounded (lower upper : α)
  | integer (lower upper : α)
  | vector (n : Nat)
  | matrix (rows cols : Nat)

/-- What an environment makes. -/
inductive Allocation (α : Type) where
  | single (v : Variable α)
  | vector (c : Column (Variable α))
  | matrix (m : Matrix (Variable α))

/-- The variables that were made, by rows. -/
def Allocation.elements : Allocation α → List (Variable α)
  | single v => [v]
  | vector c => c.entries
  | matrix m => m.entries

namespace Request

/-- How many variables are asked for. -/
def count : Request α → Nat
  | vector n => n
  | matrix rows cols => rows * cols
  | _ => 1

/-- How many variables are asked for by all requests. -/
def countAll (rs : List (Request α)) : Nat := (rs.map count).sum

@[simp] theorem countAll_nil : countAll ([] : List (Request α)) = 0 := rfl

@[simp] theorem countAll_cons (r : Request α) (rs : List (Request α)) :
    countAll (r :: rs) = r.count + countAll rs := List.sum_cons

/-- The answer is of the kind and shape asked for, and its variables have the numbers from `start`
on: the element at an index of a column, or in a row and a column of a matrix, the number of its
place. -/
def IsAnswer [Zero α] [One α] [Extended α] (start : Nat) : Request α → Allocation α → Prop
  | free, .single v => v = .unbounded start
  | binary, .single v => v = ⟨⟨start⟩, .binary, 0, 1⟩
  | bounded lower upper, .single v => v = ⟨⟨start⟩, .continuous, lower, upper⟩
  | integer lower upper, .single v => v = ⟨⟨start⟩, .integer, lower, upper⟩
  | vector n, .vector c => c.size = n ∧ ∀ i < n, c.at? i = .ok (.unbounded (start + i))
  | matrix rows cols, .matrix m => m.shape = ⟨rows, cols⟩ ∧ ∀ i < rows, ∀ j < cols,
      m.at? i j = .ok (.unbounded (start + (i * cols + j)))
  | _, _ => False

end Request

namespace Environment

variable [Extended α]

/-! ## One step -/

/-- Free variables made one after another have the next numbers. -/
theorem freeList_eq (n : Nat) : ∀ env : Environment,
    (env.freeList n : List (Variable α) × Environment) =
      ((List.range' env.made n).map .unbounded, { env with made := env.made + n }) := by
  induction n with
  | zero => intro env; rfl
  | succ n ih =>
    intro env
    have hothers := ih { env with made := env.made + 1 }
    show (.unbounded env.made :: (freeList n { env with made := env.made + 1 }).1,
      (freeList n { env with made := env.made + 1 } : List (Variable α) × Environment).2) = _
    rw [hothers, List.range'_succ, List.map_cons, Nat.add_assoc, Nat.add_comm 1 n]

variable [Zero α] [One α]

/-- Make what is asked for. -/
def answer (env : Environment) : Request α → Allocation α × Environment
  | .free => env.free.map .single id
  | .binary => env.binary.map .single id
  | .bounded lower upper => (env.bounded lower upper).map .single id
  | .integer lower upper => (env.integer lower upper).map .single id
  | .vector n => (env.vector n).map .vector id
  | .matrix rows cols => (env.matrix rows cols).map .matrix id

/-- **A step** moves the counter by as many variables as are asked for. -/
theorem answer_snd (env : Environment) (r : Request α) :
    (env.answer r).2 = { env with made := env.made + r.count } := by
  cases r with
  | free => rfl
  | binary => rfl
  | bounded lower upper => rfl
  | integer lower upper => rfl
  | vector n =>
    show (env.freeList n : List (Variable α) × Environment).2 = _
    rw [freeList_eq]
    rfl
  | matrix rows cols =>
    show (env.freeList (rows * cols) : List (Variable α) × Environment).2 = _
    rw [freeList_eq]
    rfl

/-- The variables made have the numbers in between. -/
theorem ids_answer (env : Environment) (r : Request α) :
    (env.answer r).1.elements.map (·.id) =
      (List.range' env.made r.count).map VariableId.mk := by
  cases r with
  | free => rfl
  | binary => rfl
  | bounded lower upper => rfl
  | integer lower upper => rfl
  | vector n =>
    show (env.freeList n : List (Variable α) × Environment).1.map (·.id) = _
    rw [freeList_eq, List.map_map]
    rfl
  | matrix rows cols =>
    show (env.freeList (rows * cols) : List (Variable α) × Environment).1.map (·.id) = _
    rw [freeList_eq, List.map_map]
    rfl

theorem isAnswer_answer (env : Environment) (r : Request α) :
    r.IsAnswer env.made (env.answer r).1 := by
  cases r with
  | free => rfl
  | binary => rfl
  | bounded lower upper => rfl
  | integer lower upper => rfl
  | vector n =>
    show Request.IsAnswer _ _ (.vector ⟨(env.freeList n).1⟩)
    rw [freeList_eq]
    refine ⟨by simp [Column.size], fun i hi => ?_⟩
    simp [Column.at?, hi]
  | matrix rows cols =>
    show Request.IsAnswer _ _ (.matrix ⟨rows, cols, (env.freeList (rows * cols)).1⟩)
    rw [freeList_eq]
    refine ⟨rfl, fun i hi j hj => ?_⟩
    have hplace : i * cols + j < rows * cols := Shape.place_lt (s := ⟨rows, cols⟩) hi hj
    simp [Matrix.at?, hi, hj, hplace]

/-! ## Runs -/

/-- What an environment makes of one request after another, with the environment after each. -/
def history (env : Environment) : List (Request α) → List (Allocation α × Environment)
  | [] => []
  | r :: rs => env.answer r :: history (env.answer r).2 rs

/-- All variables made in a run. -/
def madeIn (steps : List (Allocation α × Environment)) : List (Variable α) :=
  steps.flatMap (·.1.elements)

/-- **A run step by step**: each request is answered with the counter at what was asked for before.
-/
theorem history_getElem? (rs : List (Request α)) :
    ∀ (env : Environment) (n : Nat), (env.history rs)[n]? = rs[n]?.map fun r =>
      answer { env with made := env.made + Request.countAll (rs.take n) } r := by
  induction rs with
  | nil => intro env n; rfl
  | cons r rs ih =>
    intro env n
    cases n with
    | zero => rfl
    | succ n =>
      rw [history, List.getElem?_cons_succ, ih, List.getElem?_cons_succ, answer_snd,
        List.take_succ_cons, Request.countAll_cons, Nat.add_assoc]

/-- **Over a run** the variables are numbered without gaps. -/
theorem ids_history (rs : List (Request α)) :
    ∀ env : Environment, (madeIn (env.history rs)).map (·.id) =
      (List.range' env.made (Request.countAll rs)).map VariableId.mk := by
  induction rs with
  | nil => intro env; rfl
  | cons r rs ih =>
    intro env
    rw [history, madeIn, List.flatMap_cons, List.map_append, ids_answer, ← madeIn, ih,
      answer_snd, ← List.map_append, List.range'_append_1, Request.countAll_cons]

/-! ## Several environments -/

section Interleaved

variable [DecidableEq ι]

/-- What several environments make that take turns, with the one whose turn it was. -/
def interleaved (envs : ι → Environment) :
    List (ι × Request α) → List (ι × Allocation α × Environment)
  | [] => []
  | (i, r) :: turns =>
    (i, (envs i).answer r) :: interleaved (Function.update envs i ((envs i).answer r).2) turns

/-- What belongs to one of several. -/
def ownedBy (i : ι) (xs : List (ι × τ)) : List τ := (xs.filter (·.1 = i)).map (·.2)

theorem ownedBy_cons_self (i : ι) (x : τ) (xs : List (ι × τ)) :
    ownedBy i ((i, x) :: xs) = x :: ownedBy i xs := by
  simp [ownedBy]

theorem ownedBy_cons_of_ne {i j : ι} (h : j ≠ i) (x : τ) (xs : List (ι × τ)) :
    ownedBy i ((j, x) :: xs) = ownedBy i xs := by
  simp [ownedBy, h]

/-- **Taking turns** changes for none of the environments what it makes. -/
theorem ownedBy_interleaved (i : ι) (turns : List (ι × Request α)) :
    ∀ envs : ι → Environment,
      ownedBy i (interleaved envs turns) = (envs i).history (ownedBy i turns) := by
  induction turns with
  | nil => intro envs; rfl
  | cons turn turns ih =>
    intro envs
    obtain ⟨j, r⟩ := turn
    rw [interleaved]
    by_cases hj : j = i
    · subst hj
      rw [ownedBy_cons_self, ownedBy_cons_self, ih, Function.update_self, history]
    · -- another environment has its turn
      rw [ownedBy_cons_of_ne hj, ownedBy_cons_of_ne hj, ih, Function.update_of_ne (Ne.symm hj)]

end Interleaved

/-! ## The numbers of a run -/

/-- The steps of a run answer its requests with variables numbered from zero. -/
structure Numbered (rs : List (Request α)) (steps : List (Allocation α × Environment)) : Prop where
  /-- As many variables are made as are asked for. -/
  length_eq : (madeIn steps).length = Request.countAll rs
  /-- The variable made at a place has the number of the place. -/
  id_eq : ∀ (k : Nat) (v : Variable α), (madeIn steps)[k]? = some v → v.id = ⟨k⟩
  nodup : ((madeIn steps).map (·.id)).Nodup
  valid : ∀ v ∈ madeIn steps, Monomial.checkVariable v = .ok ()
  /-- Every request is answered with the numbers that follow those of the requests before, and then
  the environment counts what has been asked for so far. -/
  step : ∀ (n : Nat) (r : Request α), rs[n]? = some r → ∃ a env, steps[n]? = some (a, env) ∧
    r.IsAnswer (Request.countAll (rs.take n)) a ∧ env.made = Request.countAll (rs.take (n + 1))

theorem numbered_history (name : String) {rs : List (Request α)}
    (hrs : Request.countAll rs ≤ 2 ^ 32 - 1) : Numbered rs ((new name).history rs) := by
  have hids : (madeIn ((new name).history rs)).map (·.id) =
      (List.range' 0 (Request.countAll rs)).map VariableId.mk := ids_history rs (new name)
  have hlength : (madeIn ((new name).history rs)).length = Request.countAll rs := by
    simpa using congrArg List.length hids
  have hnumber : ∀ (k : Nat) (v : Variable α), (madeIn ((new name).history rs))[k]? = some v →
      v.id = ⟨k⟩ ∧ k < Request.countAll rs := by
    intro k v hv
    have hk : k < Request.countAll rs := hlength ▸ (List.getElem?_eq_some_iff.mp hv).1
    have hid := congrArg (·[k]?) hids
    refine ⟨?_, hk⟩
    simpa [hv, hk] using hid
  refine ⟨hlength, fun k v hv => (hnumber k v hv).1, ?_, fun v hv => ?_, fun n r hr => ?_⟩
  · rw [hids]
    exact List.Nodup.map (fun m n h => congrArg VariableId.index h) List.nodup_range'
  · obtain ⟨k, hk⟩ := List.mem_iff_getElem?.mp hv
    obtain ⟨hid, hlt⟩ := hnumber k v hk
    -- the number that is kept for undefined variables is not reached
    have hne : k ≠ 4294967295 := by omega
    rw [Monomial.checkVariable_eq_ok, hid]
    simpa [VariableId.isDefined, VariableId.undefined] using hne
  · let env : Environment := ⟨name, Request.countAll (rs.take n)⟩
    have hstep : ((new name).history rs)[n]? = some (env.answer r) := by
      rw [history_getElem?, hr, Option.map_some, show (new name).made = 0 from rfl, Nat.zero_add]
      rfl
    refine ⟨(env.answer r).1, (env.answer r).2, hstep, isAnswer_answer env r, ?_⟩
    rw [answer_snd, List.take_add_one, hr]
    simp [env, Request.countAll]

/-- **Identifiers over whole runs.** A new environment, whatever its name, that is asked for at most
`2 ^ 32 - 1` variables numbers them from zero: the numbers are consecutive within every column and
every matrix and from one request to the next, so no two variables have one identifier, and all of
them are valid. Where environments take turns, each makes what it makes of its own requests alone.
-/
theorem run_numbered (name : String) {rs : List (Request α)}
    (hrs : Request.countAll rs ≤ 2 ^ 32 - 1) :
    Numbered rs ((new name).history rs) ∧
    ∀ (ι : Type) [DecidableEq ι] (envs : ι → Environment) (turns : List (ι × Request α)) (i : ι),
      ownedBy i (interleaved envs turns) = (envs i).history (ownedBy i turns) :=
  ⟨numbered_history name hrs, fun _ _ envs turns i => ownedBy_interleaved i turns envs⟩

/-- A matrix that is asked for after another variable starts with number 1, and its second row with
number 3. With a second environment in between, the first one goes on with number 5. -/
theorem run_numbered_matrix :
    let rs : List (Request Float) := [.binary, .matrix 2 2, .integer (-1) 1]
    let turns : List (Bool × Request Float) :=
      [(true, .binary), (false, .vector 3), (true, .matrix 2 2), (true, .integer (-1) 1)]
    let envs : Bool → Environment := fun _ => new "e"
    Request.countAll rs ≤ 2 ^ 32 - 1 ∧ Numbered rs ((new "e").history rs) ∧
      (∃ m env, ((new "e").history rs)[1]? = some (.matrix m, env) ∧
        m.at? 0 0 = .ok (.unbounded 1) ∧ m.at? 1 0 = .ok (.unbounded 3) ∧ env.made = 5) ∧
      ownedBy true (interleaved envs turns) = (new "e").history rs := by
  intro rs turns envs
  have hrs : Request.countAll rs ≤ 2 ^ 32 - 1 := by decide
  obtain ⟨hnumbered, hturns⟩ := run_numbered "e" hrs
  obtain ⟨a, env, hstep, hanswer, hmade⟩ := hnumbered.step 1 (.matrix 2 2) rfl
  refine ⟨hrs, hnumbered, ?_, hturns Bool envs turns true⟩
  cases a with
  | single v => exact hanswer.elim
  | vector c => exact hanswer.elim
  | matrix m =>
    obtain ⟨-, hplaces⟩ := hanswer
    exact ⟨m, env, hstep, hplaces 0 (by decide) 0 (by decide), hplaces 1 (by decide) 0 (by decide),
      hmade⟩

end Environment

end DecisionAlgebra
