import LineScript.Text.Basic

/-!
Decimal numerals: the readings that a run of ASCII digits has, with and without a sign, and the
shortest numeral of a number. `natural?_ofNat` and `integer?_ofInt` say that a written number
reads back.
-/
namespace LineScript.Text

/-- A text of one or more ASCII digits. -/
def isDigits (s : Text) : Bool :=
  !s.isEmpty && s.all Char.isDigit

/-- The number that a text of one or more digits denotes. -/
def natural? (s : Text) : Option Nat :=
  if isDigits s then some (Nat.ofDigitChars 10 s 0) else none

/-- A natural number, with or without a plus sign. -/
def unsigned? : Text → Option Nat
  | '+' :: digits => natural? digits
  | s => natural? s

/-- An integer, with or without a sign. -/
def integer? : Text → Option Int
  | '+' :: digits => (natural? digits).map Int.ofNat
  | '-' :: digits => (natural? digits).map fun n => -Int.ofNat n
  | s => (natural? s).map Int.ofNat

/-- The decimal numeral without leading zeros. -/
def ofNat (n : Nat) : Text :=
  Nat.toDigits 10 n

def ofInt : Int → Text
  | .ofNat n => ofNat n
  | .negSucc n => '-' :: ofNat (n + 1)

theorem ofInt_eq (i : Int) : ofInt i = (toString i).toList := by
  cases i with
  | ofNat n => exact (Nat.toList_repr ..).symm
  | negSucc n => simp [ofInt, ofNat, toString, Int.repr, Nat.repr]

theorem isDigits_ofNat (n : Nat) : isDigits (ofNat n) = true := by
  have hall : (ofNat n).all Char.isDigit = true :=
    List.all_eq_true.2 fun c hc => Nat.isDigit_of_mem_toDigits (by decide) (by decide) hc
  have hne : ofNat n ≠ [] := Nat.toDigits_ne_nil
  simp [isDigits, hall, hne]

@[simp]
theorem natural?_ofNat (n : Nat) : natural? (ofNat n) = some n := by
  rw [natural?, if_pos (isDigits_ofNat n), ofNat,
    Nat.ofDigitChars_toDigits (by decide) (by decide)]

theorem natural?_eq_some_iff {s : Text} {n : Nat} :
    natural? s = some n ↔ isDigits s = true ∧ n = Nat.ofDigitChars 10 s 0 := by
  unfold natural?
  split
  next h => simp [h, eq_comm]
  next h => simp [h]

/-- A numeral starts with a digit, so no sign is taken off it. -/
theorem integer?_of_isDigits {s : Text} (h : isDigits s = true) :
    integer? s = (natural? s).map Int.ofNat := by
  unfold integer?
  split
  · simp [isDigits, show ('+' : Char).isDigit = false from rfl] at h
  · simp [isDigits, show ('-' : Char).isDigit = false from rfl] at h
  · rfl

@[simp]
theorem integer?_ofInt (i : Int) : integer? (ofInt i) = some i := by
  cases i with
  | ofNat n => simp [ofInt, integer?_of_isDigits (isDigits_ofNat n)]
  | negSucc n => simp [ofInt, integer?, Int.negSucc_eq]

end LineScript.Text
