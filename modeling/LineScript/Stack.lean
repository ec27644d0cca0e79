import LineScript.Error

/-!
Stacks of limited size. An operation gives its outcome together with the stack that it leaves, also
where it fails: an entry that exceeds the limit is on the stack all the same, and of two entries
asked for the one that was there is gone. Two stacks with the same entries are equal.
-/
namespace LineScript

/-- The entries with the last one in first, and their number, kept so that it need not be
counted. -/
structure Stack (α : Type) where
  entries : List α
  size : Nat
  size_eq : size = entries.length
  deriving DecidableEq

namespace Stack

variable {α β : Type}

/-- The largest number of entries after a successful push. -/
def capacity : Nat :=
  65535

@[ext]
theorem ext {s t : Stack α} (h : s.entries = t.entries) : s = t := by
  obtain ⟨l, n, hn⟩ := s
  obtain ⟨l', n', hn'⟩ := t
  cases h
  simp_all

def ofList (entries : List α) : Stack α :=
  ⟨entries, entries.length, rfl⟩

@[simp]
theorem entries_ofList (l : List α) : (ofList l).entries = l :=
  rfl

@[simp]
theorem ofList_entries (s : Stack α) : ofList s.entries = s :=
  Stack.ext rfl

def empty : Stack α :=
  ofList []

def isEmpty (s : Stack α) : Bool :=
  s.entries.isEmpty

def top? (s : Stack α) : Option α :=
  s.entries.head?

def cons (a : α) (s : Stack α) : Stack α :=
  ⟨a :: s.entries, s.size + 1, by simp [s.size_eq]⟩

/-- Puts an entry on top, and fails if there are then too many. -/
def push (a : α) (s : Stack α) : Except Error Unit × Stack α :=
  (if s.size < capacity then .ok () else .error (.about .outOfMemory "STACK OVERFLOW".toList),
    s.cons a)

/-- Takes the top entry off; there being none is the error `missing`. -/
def pop (missing : Error) : Stack α → Except Error α × Stack α
  | ⟨[], n, h⟩ => (.error missing, ⟨[], n, h⟩)
  | ⟨a :: rest, n, h⟩ => (.ok a, ⟨rest, n - 1, by simp [h]⟩)

/-- Takes two entries off, and gives the lower one first. -/
def popPair (missing : Error) (s : Stack α) : Except Error (α × α) × Stack α :=
  match s.pop missing with
  | (.error e, s) => (.error e, s)
  | (.ok upper, s) =>
    match s.pop missing with
    | (.error e, s) => (.error e, s)
    | (.ok lower, s) => (.ok (lower, upper), s)

/-- The images of the longest initial run on which `f` is defined. -/
def leading (f : α → Option β) : List α → List β
  | [] => []
  | a :: rest =>
    match f a with
    | some b => b :: leading f rest
    | none => []

/-- Takes entries off as long as `f` is defined on the top one, and gives the images of the
entries taken, the top one first. -/
def popWhile (f : α → Option β) (s : Stack α) : List β × Stack α :=
  let taken := leading f s.entries
  (taken, ⟨s.entries.drop taken.length, s.size - taken.length, by simp [s.size_eq]⟩)

/-- The outcome of an operation together with the stack after it, where it succeeds. -/
def settle : Except Error β × Stack α → Except Error (β × Stack α)
  | (.ok b, s) => .ok (b, s)
  | (.error e, _) => .error e

/-- The entries from the bottom up, in brackets. -/
def inspect (text : α → Text) (s : Stack α) : Text :=
  "[".toList ++ List.intercalate ", ".toList (s.entries.reverse.map text) ++ "]".toList

@[simp]
theorem entries_push (a : α) (s : Stack α) : (s.push a).2.entries = a :: s.entries :=
  rfl

theorem push_ok_iff (a : α) (s : Stack α) :
    (s.push a).1 = .ok () ↔ s.entries.length < capacity := by
  rw [push, ← s.size_eq]
  split <;> simp_all

theorem settle_push {a : α} {s : Stack α} (h : s.size < capacity) :
    settle (s.push a) = .ok ((), s.cons a) := by
  rw [push, if_pos h]
  rfl

@[simp]
theorem pop_cons (missing : Error) (a : α) (s : Stack α) :
    (s.cons a).pop missing = (.ok a, s) :=
  rfl

@[simp]
theorem popPair_cons_cons (missing : Error) (a b : α) (s : Stack α) :
    ((s.cons a).cons b).popPair missing = (.ok (a, b), s) :=
  rfl

theorem pop_cases (missing : Error) (s : Stack α) :
    (s.entries = [] ∧ s.pop missing = (.error missing, s)) ∨
      ∃ a t, s = t.cons a ∧ s.pop missing = (.ok a, t) := by
  obtain ⟨entries, size, hsize⟩ := s
  cases entries with
  | nil => exact .inl ⟨rfl, rfl⟩
  | cons a rest =>
    refine .inr ⟨a, ofList rest, Stack.ext rfl, ?_⟩
    exact Prod.ext rfl (Stack.ext rfl)

theorem push_cases (a : α) (s : Stack α) :
    (s.size < capacity ∧ s.push a = (.ok (), s.cons a)) ∨
      (capacity ≤ s.size ∧
        s.push a = (.error (.about .outOfMemory "STACK OVERFLOW".toList), s.cons a)) := by
  by_cases h : s.size < capacity
  · exact .inl ⟨h, by rw [push, if_pos h]⟩
  · exact .inr ⟨Nat.le_of_not_lt h, by rw [push, if_neg h]⟩

theorem popWhile_cons_some {f : α → Option β} {a : α} {b : β} (h : f a = some b) (s : Stack α) :
    (s.cons a).popWhile f = (b :: (s.popWhile f).1, (s.popWhile f).2) := by
  simp [popWhile, cons, leading, h]

theorem popWhile_of_top {f : α → Option β} {s : Stack α} (h : s.top?.bind f = none) :
    s.popWhile f = ([], s) := by
  obtain ⟨entries, size, hsize⟩ := s
  cases entries with
  | nil => rfl
  | cons a rest =>
    have ha : f a = none := h
    simp [popWhile, leading, ha]

@[simp]
theorem pop_ofList_nil (missing : Error) :
    (ofList ([] : List α)).pop missing = (.error missing, ofList []) :=
  rfl

@[simp]
theorem pop_ofList_cons (missing : Error) (a : α) (l : List α) :
    (ofList (a :: l)).pop missing = (.ok a, ofList l) :=
  rfl

end Stack
end LineScript
