import Std.Data.ExtTreeMap
import LineScript.Error
import LineScript.Value

/-!
The variables of a program: a map from names to values that remembers which variables have been
assigned. Two stores that answer every question alike are equal. A line that answers a request for
input gives one integer for each of the variables, with blanks between them.
-/
namespace LineScript

/-- What a store knows of a declared variable. -/
structure Variable where
  value : Value
  assigned : Bool
  deriving DecidableEq

/-- A variable as its declaration leaves it. -/
def Variable.fresh : Variable :=
  ⟨Value.least, false⟩

structure Store where
  table : Std.ExtTreeMap Text Variable
  deriving DecidableEq

namespace Store

/-- The number of variables at which no name can be declared any more. -/
def capacity : Nat :=
  65536

def empty : Store :=
  ⟨∅⟩

def size (s : Store) : Nat :=
  s.table.size

def lookup? (s : Store) (name : Text) : Option Variable :=
  s.table[name]?

def contains (s : Store) (name : Text) : Bool :=
  s.table.contains name

def undeclared (name : Text) : Error :=
  .about .undeclared name

/-- Makes a variable of the name, or resets it to the state of a new one. -/
def declare (name : Text) (s : Store) : Except Error Store :=
  if !Name.isValid name then .error (.about .badName name)
  else if capacity ≤ s.size then .error (.of .outOfMemory)
  else .ok ⟨s.table.insert name .fresh⟩

/-- Declares names up to the first that fails. -/
def declareAll : List Text → Store → Except Error Unit × Store
  | [], s => (.ok (), s)
  | name :: rest, s =>
    match s.declare name with
    | .error e => (.error e, s)
    | .ok s => s.declareAll rest

/-- The value of a declared variable, assigned or not. -/
def valueOf (name : Text) (s : Store) : Except Error Value :=
  match s.lookup? name with
  | some x => .ok x.value
  | none => .error (undeclared name)

def assign (name : Text) (v : Value) (s : Store) : Except Error Store :=
  if s.contains name then .ok ⟨s.table.insert name ⟨v, true⟩⟩
  else .error (undeclared name)

/-- Assigns to each name in turn, so that of two values for one name the later stays. -/
def assignAll (assignments : List (Text × Value)) (s : Store) : Except Error Store :=
  assignments.foldlM (fun s (name, v) => s.assign name v) s

@[ext]
theorem ext {s t : Store} (h : ∀ name, s.lookup? name = t.lookup? name) : s = t := by
  obtain ⟨a⟩ := s
  obtain ⟨b⟩ := t
  exact congrArg Store.mk (Std.ExtTreeMap.ext_getElem? h)

theorem contains_eq (s : Store) (name : Text) :
    s.contains name = (s.lookup? name).isSome :=
  Std.ExtTreeMap.contains_eq_isSome_getElem?

theorem lookup?_of_declare {s t : Store} {name : Text} (h : s.declare name = .ok t) (x : Text) :
    t.lookup? x = if name = x then some .fresh else s.lookup? x := by
  unfold declare at h
  split at h
  · cases h
  · split at h
    · cases h
    · cases h
      simp [lookup?, Std.ExtTreeMap.getElem?_insert]

theorem lookup?_of_assign {s t : Store} {name : Text} {v : Value} (h : s.assign name v = .ok t)
    (x : Text) : t.lookup? x = if name = x then some ⟨v, true⟩ else s.lookup? x := by
  unfold assign at h
  split at h
  · cases h
    simp [lookup?, Std.ExtTreeMap.getElem?_insert]
  · cases h

theorem assign_of_contains {s : Store} {name : Text} (h : s.contains name = true)
    (v : Value) : ∃ t, s.assign name v = .ok t :=
  ⟨_, by rw [assign, if_pos h]⟩

theorem contains_of_assign {s t : Store} {name : Text} {v : Value} (h : s.assign name v = .ok t)
    (x : Text) : t.contains x = s.contains x := by
  have hname : s.contains name = true := by
    unfold assign at h
    split at h
    next hname => exact hname
    next => cases h
  rw [contains_eq, lookup?_of_assign h]
  split
  next heq =>
    subst heq
    rw [hname]
    rfl
  next => rw [contains_eq]

theorem contains_of_declare {s t : Store} {name : Text} (h : s.declare name = .ok t) (x : Text) :
    t.contains x = (decide (name = x) || s.contains x) := by
  rw [contains_eq, lookup?_of_declare h, contains_eq]
  by_cases hx : name = x <;> simp [hx]

theorem isValid_of_declare {s t : Store} {name : Text} (h : s.declare name = .ok t) :
    Name.isValid name = true := by
  unfold declare at h
  split at h
  · cases h
  next hname => simpa using hname

end Store

namespace Answer

/-- The error of a line without one field for each variable asked for. -/
def missing (count : Nat) : Error :=
  .about .missingInput
    ("EXPECTED ".toList ++ Text.ofNat count ++ " VALUE".toList ++ if count = 1 then [] else ['S'])

def value (field : Text) : Except Error Value :=
  match Value.read? field with
  | some v => .ok v
  | none => .error (.about .badNumber field)

/-- The values of a line with as many fields as are asked for. -/
def values (count : Nat) (line : Text) : Except Error (List Value) :=
  let fields := Text.words line
  if fields.isEmpty || fields.length != count then .error (missing count)
  else fields.mapM value

/-- Assigns the values of a line to the variables; either all are assigned or none. -/
def assign (names : List Text) (line : Text) (vars : Store) : Except Error Store := do
  let vs ← values names.length line
  vars.assignAll (names.zip vs)

end Answer

end LineScript
