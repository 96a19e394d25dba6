import DecisionAlgebra.Proofs.Sequencing
import DecisionAlgebra.Serial.Field

/-!
# Fields, tags and numbers read back

The building blocks of the serial forms, each with what reading makes of what has been written.
Records and tags are read by name, which finds the right place because no name comes twice. A number
is read back exactly when it is finite, so reading a list or a record succeeds under a condition;
`Reads` carries that condition along.
-/

namespace DecisionAlgebra

/-- The infinite values are not among the finite numbers, and a finite number equals itself. -/
class LawfulExtended (α : Type) [BEq α] [Extended α] : Prop where
  infinity_notFinite : Extended.isFinite (Extended.infinity : α) = false
  negInfinity_notFinite : Extended.isFinite (Extended.negInfinity : α) = false
  beq_self : ∀ x : α, Extended.isFinite x = true → (x == x) = true

instance Binary64.instLawfulExtended : LawfulExtended Float where
  infinity_notFinite := by decide
  negInfinity_notFinite := by decide
  beq_self := by
    intro x hx
    have hself : ∀ u : Float.Model.UnpackedFloat, u.isFinite = true → u.beq u = true := by
      intro u hu
      cases u with
      | infinity s => cases hu
      | notANumber => cases hu
      | zero s => rfl
      | finite s m e hm =>
        have hequal : (compare e e).then (compare m m) = .eq := by simp
        cases s with
        | positive =>
          show (some ((compare e e).then (compare m m)) == some .eq) = true
          rw [hequal]
          rfl
        | negative =>
          show (some ((compare e e).then (compare m m)).swap == some .eq) = true
          rw [hequal]
          rfl
    exact hself x.toModel.unpack hx

namespace Serial

variable {α T U : Type}

/-! ## Reading under a condition -/

/-- Reading ends with the value `x` if the condition holds, and with nothing otherwise. -/
def Reads (o : Option T) (condition : Prop) (x : T) : Prop :=
  ∀ y, o = some y ↔ condition ∧ y = x

namespace Reads

variable {o : Option T} {c d : Prop} {x : T} {z : U}

theorem of_eq (h : o = some x) : Reads o True x := by
  intro y
  rw [h, Option.some.injEq, true_and, eq_comm]

theorem pure (x : T) : Reads (Pure.pure x) True x := of_eq rfl

theorem congr (h : c ↔ d) (ho : Reads o c x) : Reads o d x := fun y => by rw [ho y, h]

theorem exists_iff (ho : Reads o c x) : (∃ y, o = some y) ↔ c :=
  ⟨fun ⟨y, hy⟩ => ((ho y).mp hy).1, fun h => ⟨x, (ho x).mpr ⟨h, rfl⟩⟩⟩

theorem bind (ho : Reads o c x) {f : T → Option U} (hf : Reads (f x) d z) :
    Reads (o >>= f) (c ∧ d) z := by
  intro w
  rw [Option.bind_eq_bind, Option.bind_eq_some_iff]
  constructor
  · intro h
    obtain ⟨y, hy, hw⟩ := h
    obtain ⟨hc, rfl⟩ := (ho y).mp hy
    obtain ⟨hd, rfl⟩ := (hf w).mp hw
    exact ⟨⟨hc, hd⟩, rfl⟩
  · intro h
    obtain ⟨⟨hc, hd⟩, rfl⟩ := h
    exact ⟨x, (ho x).mpr ⟨hc, rfl⟩, (hf w).mpr ⟨hd, rfl⟩⟩

/-- A part that is always read adds no condition. -/
theorem bind_some (ho : o = some x) {f : T → Option U} (hf : Reads (f x) d z) :
    Reads (o >>= f) d z := by
  rw [ho]
  exact hf

theorem map (ho : Reads o c x) (f : T → U) : Reads (o.map f) c (f x) := by
  rw [Option.map_eq_bind]
  exact congr (iff_of_eq (and_true c)) (ho.bind (of_eq rfl))

end Reads

/-! ## Records -/

theorem onlyMember?_of_nodup {members : List (String × Json α)}
    (h : (members.map (·.1)).Nodup) {m : String × Json α} (hm : m ∈ members) :
    onlyMember? members m.1 = some m.2 := by
  have hfilter : members.filter (·.1 == m.1) = [m] := by
    induction members with
    | nil => cases hm
    | cons n members ih =>
      rw [List.map_cons, List.nodup_cons] at h
      rcases List.mem_cons.mp hm with rfl | hm'
      · -- the name does not come again
        have hrest : members.filter (·.1 == m.1) = [] := by
          refine List.filter_eq_nil_iff.mpr fun k hk hname => h.1 ?_
          exact List.mem_map.mpr ⟨k, hk, beq_iff_eq.mp hname⟩
        rw [List.filter_cons_of_pos (by simp), hrest]
      · have hne : n.1 ≠ m.1 := fun hname => h.1 (List.mem_map.mpr ⟨m, hm', hname.symm⟩)
        rw [List.filter_cons_of_neg (by simpa using hne), ih h.2 hm']
  rw [onlyMember?, hfilter]

/-- **The fields of a record are found by their names.** -/
theorem readFields_record {names : List String} {fields : List (String × Json α)}
    (hnames : fields.map (·.1) = names) (h : names.Nodup) :
    readFields names (record fields) = some (fields.map (·.2)) := by
  subst hnames
  show (fields.map (·.1)).mapM (onlyMember? fields) = _
  rw [mapM_eq_some, List.forall₂_map_left_iff, List.forall₂_map_right_iff]
  exact List.forall₂_same.mpr fun m hm => onlyMember?_of_nodup h hm

/-! ## Tags -/

/-- Different tags tell the values apart. -/
theorem ofTag?_tag {tag : T → String} {all : List T} (h : (all.map tag).Nodup) {t : T}
    (ht : t ∈ all) : ofTag? tag all (tag t) = some t := by
  unfold ofTag?
  induction all with
  | nil => cases ht
  | cons a all ih =>
    rw [List.map_cons, List.nodup_cons] at h
    rcases List.mem_cons.mp ht with rfl | ht'
    · rw [List.find?_cons_of_pos (by simp)]
    · have hne : tag a ≠ tag t := fun htag => h.1 (List.mem_map.mpr ⟨t, ht', htag.symm⟩)
      rw [List.find?_cons_of_neg (by simpa using hne), ih h.2 ht']

/-! ## Numbers and lists -/

theorem reads_number [IntCast α] [Extended α] (x : α) :
    Reads (readNumber (number x)) (Extended.isFinite x = true) x := by
  intro y
  unfold number
  by_cases hx : Extended.isFinite x = true
  · rw [if_pos hx]
    show finite? x = some y ↔ _
    rw [finite?, if_pos hx, Option.some.injEq]
    exact ⟨fun h => ⟨hx, h.symm⟩, fun h => h.2.symm⟩
  · rw [if_neg hx]
    exact ⟨nofun, fun h => absurd h.1 hx⟩

theorem readCount_count {limit n : Nat} (h : n ≤ limit) :
    readCount limit (.count n : Json α) = some n := if_pos h

/-- A list is read when every item is. -/
theorem reads_list {write : T → Json α} {read : Json α → Option T} {condition : T → Prop}
    {back : T → T} {xs : List T}
    (h : ∀ x ∈ xs, Reads (read (write x)) (condition x) (back x)) :
    Reads (readList read (list write xs)) (∀ x ∈ xs, condition x) (xs.map back) := by
  show Reads ((xs.map write).mapM read) _ _
  induction xs with
  | nil => exact Reads.congr ⟨fun _ => nofun, fun _ => trivial⟩ (.pure [])
  | cons x xs ih =>
    rw [List.map_cons, List.mapM_cons, List.map_cons]
    have hrest := ih fun z hz => h z (List.mem_cons_of_mem _ hz)
    refine .congr ?_ (.bind (h x List.mem_cons_self) (.bind hrest (.pure _)))
    rw [and_true, List.forall_mem_cons]

/-- Items that can always be read make a list that can. -/
theorem readList_list {write : T → Json α} {read : Json α → Option T} {back : T → T} {xs : List T}
    (h : ∀ x ∈ xs, read (write x) = some (back x)) :
    readList read (list write xs) = some (xs.map back) :=
  (reads_list (fun x hx => .of_eq (h x hx)) _).mpr ⟨fun _ _ => trivial, rfl⟩

end Serial

end DecisionAlgebra
