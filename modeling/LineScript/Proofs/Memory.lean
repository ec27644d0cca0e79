import Mathlib.Data.Finset.Card
import Mathlib.Data.Finset.Dedup
import LineScript.Proofs.Invariant

/-!
A store remembers the last value for each name. What it holds is told by the calls that succeeded:
a name is declared if one of them declared it, and its value is the last one that was stored since
the name was last declared. Each call is an addition to that history, and a call that fails is
none.
-/
namespace LineScript
namespace Store

/-- A call of a store. -/
inductive Access where
  | declare (name : Text)
  | assign (name : Text) (v : Value)
  | fetch (name : Text)
  deriving DecidableEq

namespace Access

def name : Access → Text
  | declare x | assign x _ | fetch x => x

/-- The name that a call declares. -/
def declared? : Access → Option Text
  | declare x => some x
  | _ => none

/-- The value that a call stores under the name. -/
def stored? (x : Text) : Access → Option Value
  | assign y v => if y = x then some v else none
  | _ => none

end Access

/-- What a call gives back, a value if it asks for one, and the store that it leaves. -/
def access (s : Store) : Access → Except Error (Option Value) × Store
  | .declare x =>
    match s.declare x with
    | .ok t => (.ok none, t)
    | .error e => (.error e, s)
  | .assign x v =>
    match s.assign x v with
    | .ok t => (.ok none, t)
    | .error e => (.error e, s)
  | .fetch x => ((s.valueOf x).map some, s)

/-- The store after a sequence of calls. -/
def accessed (s : Store) (calls : List Access) : Store :=
  calls.foldl (fun s a => (s.access a).2) s

/-- Those of the calls that succeed, in order. -/
def successes (s : Store) : List Access → List Access
  | [] => []
  | a :: calls =>
    match s.access a with
    | (.ok _, t) => a :: t.successes calls
    | (.error _, t) => t.successes calls

/-- The last value stored under the name, of those since it was last declared. -/
def latest? (x : Text) (done : List Access) : Option Value :=
  (done.reverse.takeWhile fun a => a ≠ .declare x).findSome? (Access.stored? x)

/-- What there is to know of a name after calls that succeeded. -/
def recalled (x : Text) (done : List Access) : Option Variable :=
  if .declare x ∈ done then
    some (match latest? x done with
      | some v => ⟨v, true⟩
      | none => .fresh)
  else none

/-- The names that calls declare. -/
def declaredIn (done : List Access) : Finset Text :=
  (done.filterMap Access.declared?).toFinset

theorem mem_declaredIn {x : Text} {done : List Access} :
    x ∈ declaredIn done ↔ .declare x ∈ done := by
  rw [declaredIn, List.mem_toFinset, List.mem_filterMap]
  constructor
  · rintro ⟨a, ha, hx⟩
    cases a with
    | declare y =>
      cases hx
      exact ha
    | assign y v => cases hx
    | fetch y => cases hx
  · exact fun h => ⟨_, h, rfl⟩

theorem latest?_concat (x : Text) (done : List Access) (a : Access) :
    latest? x (done ++ [a]) =
      if a = .declare x then none else (a.stored? x).or (latest? x done) := by
  rw [latest?, List.reverse_append, List.reverse_singleton, List.singleton_append]
  by_cases ha : a = .declare x
  · simp [ha]
  · rw [if_neg ha, List.takeWhile_cons_of_pos (by simpa using ha), List.findSome?_cons, latest?]
    cases a.stored? x <;> rfl

theorem size_of_declare {s t : Store} {x : Text} (h : s.declare x = .ok t) :
    s.size < capacity ∧ t.size = if s.contains x then s.size else s.size + 1 := by
  unfold declare at h
  split at h
  · cases h
  · split at h
    · cases h
    next hsize =>
      cases h
      exact ⟨Nat.lt_of_not_le hsize, by simp [size, contains, Std.ExtTreeMap.size_insert]⟩

theorem size_of_assign {s t : Store} {x : Text} {v : Value} (h : s.assign x v = .ok t) :
    t.size = s.size := by
  unfold assign at h
  split at h
  next hx =>
    cases h
    have hmem : x ∈ s.table := hx
    simp [size, Std.ExtTreeMap.size_insert, hmem]
  next => cases h

/-- The ways that a call can go. -/
theorem access_cases (s : Store) (a : Access) :
    (∃ e, s.access a = (.error e, s)) ∨
    (∃ x t, a = .declare x ∧ s.declare x = .ok t ∧ s.access a = (.ok none, t)) ∨
    (∃ x v t, a = .assign x v ∧ s.assign x v = .ok t ∧ s.access a = (.ok none, t)) ∨
    ∃ x v, a = .fetch x ∧ s.access a = (.ok (some v), s) := by
  cases a with
  | declare x =>
    cases h : s.declare x with
    | error e => exact .inl ⟨e, by rw [access, h]⟩
    | ok t => exact .inr (.inl ⟨x, t, rfl, h, by rw [access, h]⟩)
  | assign x v =>
    cases h : s.assign x v with
    | error e => exact .inl ⟨e, by rw [access, h]⟩
    | ok t => exact .inr (.inr (.inl ⟨x, v, t, rfl, h, by rw [access, h]⟩))
  | fetch x =>
    cases h : s.valueOf x with
    | error e => exact .inl ⟨e, by rw [access, h]; rfl⟩
    | ok v => exact .inr (.inr (.inr ⟨x, v, rfl, by rw [access, h]; rfl⟩))

/-- The store holds what the calls that succeeded tell, and no more names than it may. -/
structure Remembers (s : Store) (done : List Access) : Prop where
  lookup?_eq : ∀ x, s.lookup? x = recalled x done
  valid : ∀ x, .declare x ∈ done → Name.isValid x = true
  size_eq : s.size = (declaredIn done).card
  size_le : s.size ≤ 65536

namespace Remembers

variable {s t : Store} {done : List Access} {x : Text} {v : Value}

theorem contains_iff (h : Remembers s done) (x : Text) :
    s.contains x = true ↔ .declare x ∈ done := by
  rw [contains_eq, h.lookup?_eq, recalled]
  split <;> simp [*]

theorem empty : Remembers Store.empty [] where
  lookup?_eq x := by simp [recalled, lookup?, Store.empty]
  valid x hx := absurd hx List.not_mem_nil
  size_eq := by simp [size, Store.empty, declaredIn]
  size_le := by simp [size, Store.empty]

/-- A declaration is the last word on its name, and adds to the names if it is a new one. -/
theorem declare (h : Remembers s done) (ht : s.declare x = .ok t) :
    Remembers t (done ++ [.declare x]) := by
  obtain ⟨hroom, hsize⟩ := size_of_declare ht
  have hroom : s.size < 65536 := hroom
  refine ⟨fun y => ?_, fun y hy => ?_, ?_, ?_⟩
  · rw [lookup?_of_declare ht, h.lookup?_eq, recalled, recalled, latest?_concat]
    by_cases hxy : x = y
    · simp [hxy]
    · simp [hxy, Ne.symm hxy, Access.stored?]
  · rcases List.mem_append.1 hy with hy | hy
    · exact h.valid y hy
    · cases List.mem_singleton.1 hy
      exact isValid_of_declare ht
  · have hnames : declaredIn (done ++ [.declare x]) = insert x (declaredIn done) := by
      ext y
      simp [mem_declaredIn, or_comm]
    have hold : x ∈ declaredIn done ↔ s.contains x = true :=
      mem_declaredIn.trans (h.contains_iff x).symm
    rw [hnames, Finset.card_insert_eq_ite, if_congr hold rfl rfl, ← h.size_eq, hsize]
  · rw [hsize]
    split <;> omega

/-- A value is stored under a name that is declared. -/
theorem assign (h : Remembers s done) (ht : s.assign x v = .ok t) :
    Remembers t (done ++ [.assign x v]) := by
  have hx : .declare x ∈ done := by
    refine (h.contains_iff x).1 ?_
    rw [← contains_of_assign ht, contains_eq, lookup?_of_assign ht, if_pos rfl]
    rfl
  refine ⟨fun y => ?_, fun y hy => h.valid y (by simpa using hy), ?_, ?_⟩
  · rw [lookup?_of_assign ht, h.lookup?_eq, recalled, recalled, latest?_concat]
    by_cases hxy : x = y
    · subst hxy
      simp [hx, Access.stored?]
    · simp [hxy, Access.stored?]
  · have hnames : declaredIn (done ++ [.assign x v]) = declaredIn done := by
      ext y
      simp [mem_declaredIn]
    rw [hnames, ← h.size_eq, size_of_assign ht]
  · rw [size_of_assign ht]
    exact h.size_le

theorem fetch (h : Remembers s done) (x : Text) : Remembers s (done ++ [.fetch x]) := by
  refine ⟨fun y => ?_, fun y hy => h.valid y (by simpa using hy), ?_, h.size_le⟩
  · rw [h.lookup?_eq, recalled, recalled, latest?_concat]
    simp [Access.stored?]
  · have hnames : declaredIn (done ++ [.fetch x]) = declaredIn done := by
      ext y
      simp [mem_declaredIn]
    rw [hnames, h.size_eq]

/-- After a sequence of calls the store remembers those that succeeded. -/
theorem accessed (h : Remembers s done) (calls : List Access) :
    Remembers (s.accessed calls) (done ++ s.successes calls) := by
  induction calls generalizing s done with
  | nil => exact (List.append_nil done).symm ▸ h
  | cons a calls ih =>
    change Remembers ((s.access a).2.accessed calls) _
    rw [successes]
    rcases s.access_cases a with ⟨e, ha⟩ | ⟨x, t, rfl, ht, ha⟩ | ⟨x, v, t, rfl, ht, ha⟩ |
      ⟨x, v, rfl, ha⟩
    · rw [ha]
      exact ih h
    · rw [ha]
      simpa using ih (h.declare ht)
    · rw [ha]
      simpa using ih (h.assign ht)
    · rw [ha]
      simpa using ih (h.fetch x)

end Remembers

theorem access_of_error {s : Store} {a : Access} {e : Error} (h : (s.access a).1 = .error e) :
    (s.access a).2 = s := by
  rcases s.access_cases a with ⟨e, ha⟩ | ⟨x, t, -, -, ha⟩ | ⟨x, v, t, -, -, ha⟩ | ⟨x, v, -, ha⟩
  · rw [ha]
  · rw [ha] at h
    cases h
  · rw [ha] at h
    cases h
  · rw [ha]

theorem lookup?_access_of_ne {s : Store} {a : Access} {x : Text} (h : x ≠ a.name) :
    (s.access a).2.lookup? x = s.lookup? x := by
  rcases s.access_cases a with ⟨e, ha⟩ | ⟨y, t, rfl, ht, ha⟩ | ⟨y, v, t, rfl, ht, ha⟩ |
    ⟨y, v, -, ha⟩
  · rw [ha]
  · rw [ha, lookup?_of_declare ht, if_neg fun heq => h heq.symm]
  · rw [ha, lookup?_of_assign ht, if_neg fun heq => h heq.symm]
  · rw [ha]

theorem declare_of_size_lt {s : Store} {x : Text} (hx : Name.isValid x = true)
    (h : s.size < capacity) : ∃ t, s.declare x = .ok t :=
  ⟨_, by rw [declare, if_neg (by simp [hx]), if_neg (Nat.not_le.2 h)]⟩

/-- Whatever is called on a new store, and in whatever order: a name is declared if a declaration
of it has succeeded, and then it has the value that was stored last since the last of these, or the
least value if there is none, and it counts as assigned accordingly. The names are valid, there are
as many of them as were declared, and no more than 65536. A call that fails changes nothing, and no
call changes what is known of another name. Calls on declared names succeed, and so do declarations
of valid names while there is room. -/
theorem bounded_last_write (calls : List Access) :
    let s := empty.accessed calls
    let done := empty.successes calls
    (∀ x, s.contains x = true ↔ .declare x ∈ done) ∧
    (∀ x, .declare x ∈ done → Name.isValid x = true ∧
      s.valueOf x = .ok ((latest? x done).getD .least) ∧
      (s.lookup? x).map Variable.assigned = some (latest? x done).isSome) ∧
    (s.size = (declaredIn done).card ∧ s.size ≤ 65536) ∧
    (∀ a, (∀ e, (s.access a).1 = .error e → (s.access a).2 = s) ∧
      ∀ x, x ≠ a.name → (s.access a).2.lookup? x = s.lookup? x) ∧
    (∀ x v, .declare x ∈ done → ∃ t, s.access (.assign x v) = (.ok none, t)) ∧
    ∀ x, Name.isValid x = true → s.size < 65536 → ∃ t, s.access (.declare x) = (.ok none, t) := by
  intro s done
  have h : Remembers s done := Remembers.empty.accessed calls
  refine ⟨h.contains_iff, fun x hx => ⟨h.valid x hx, ?_, ?_⟩, ⟨h.size_eq, h.size_le⟩,
    fun a => ⟨fun e => access_of_error, fun x => lookup?_access_of_ne⟩, fun x v hx => ?_,
    fun x hx hroom => ?_⟩
  · rw [valueOf, h.lookup?_eq, recalled, if_pos hx]
    cases latest? x done <;> rfl
  · rw [h.lookup?_eq, recalled, if_pos hx]
    cases latest? x done <;> rfl
  · obtain ⟨t, ht⟩ := assign_of_contains ((h.contains_iff x).2 hx) v
    exact ⟨t, by rw [access, ht]⟩
  · obtain ⟨t, ht⟩ := declare_of_size_lt hx hroom
    exact ⟨t, by rw [access, ht]⟩

/-- A name that is no name, one that is stored under too early, and one that is declared again
between two values. -/
theorem bounded_last_write_again :
    let one : Value := ⟨1, by decide, by decide⟩
    let two : Value := ⟨2, by decide, by decide⟩
    let calls : List Access := [.declare "9".toList, .assign "X".toList one, .declare "X".toList,
      .declare "Y".toList, .assign "X".toList one, .assign "Y".toList one, .declare "Y".toList,
      .fetch "Z".toList, .assign "X".toList two]
    let s := empty.accessed calls
    (s.contains "X".toList = true ∧ s.valueOf "X".toList = .ok two) ∧
    (s.valueOf "Y".toList = .ok .least ∧
      (s.lookup? "Y".toList).map Variable.assigned = some false) ∧
    s.size = 2 ∧ s.contains "9".toList = false ∧
    (s.access (.assign "Z".toList one)).2 = s ∧
    (s.access (.assign "X".toList one)).2.lookup? "Y".toList = s.lookup? "Y".toList ∧
    ∃ t, s.access (.declare "Z".toList) = (.ok none, t) := by
  intro one two calls s
  obtain ⟨hdeclared, hvalue, ⟨hsize, -⟩, hcalls, -, hroom⟩ := bounded_last_write calls
  have hdone : empty.successes calls = [.declare "X".toList, .declare "Y".toList,
      .assign "X".toList one, .assign "Y".toList one, .declare "Y".toList,
      .assign "X".toList two] := by decide +kernel
  rw [hdone] at hdeclared hvalue hsize
  have htwo : s.size = 2 := hsize.trans (by decide +kernel)
  have hx := hvalue "X".toList (by decide)
  have hy := hvalue "Y".toList (by decide)
  have herror : (s.access (.assign "Z".toList one)).1 = .error (undeclared "Z".toList) := by
    decide +kernel
  refine ⟨⟨(hdeclared _).2 (by decide), hx.2.1⟩, hy.2, htwo, ?_, (hcalls _).1 _ herror,
    (hcalls _).2 _ (by decide), hroom _ (by decide) (Nat.lt_of_le_of_lt htwo.le (by decide))⟩
  rw [← Bool.not_eq_true, hdeclared]
  decide

end Store
end LineScript
