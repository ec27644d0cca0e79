import LineScript.Text.Numeral

/-!
The integers that programs compute with: those of 32 bits, two's complement.
-/
namespace LineScript

/-- An integer from -2147483648 to 2147483647. -/
structure Value where
  toInt : Int
  least_le : -2147483648 ≤ toInt
  le_greatest : toInt ≤ 2147483647
  deriving DecidableEq

namespace Value

@[ext]
theorem ext {v w : Value} (h : v.toInt = w.toInt) : v = w := by
  cases v; cases w; simp_all

/-- The integer itself where it is in range. -/
def ofInt? (i : Int) : Option Value :=
  if h : -2147483648 ≤ i ∧ i ≤ 2147483647 then some ⟨i, h.1, h.2⟩ else none

theorem ofInt?_eq_some_iff {i : Int} {v : Value} : ofInt? i = some v ↔ v.toInt = i := by
  unfold ofInt?
  constructor
  · intro h
    split at h
    · cases h; rfl
    · cases h
  · rintro rfl
    rw [dif_pos ⟨v.least_le, v.le_greatest⟩]

@[simp]
theorem ofInt?_toInt (v : Value) : ofInt? v.toInt = some v :=
  ofInt?_eq_some_iff.2 rfl

/-- The least value, which a variable holds until one is assigned to it. -/
def least : Value :=
  ⟨-2147483648, by decide, by decide⟩

/-- The decimal numeral, with a minus sign if negative. -/
def text (v : Value) : Text :=
  Text.ofInt v.toInt

/-- Reads a decimal numeral with or without a sign. -/
def read? (s : Text) : Option Value :=
  (Text.integer? s).bind ofInt?

@[simp]
theorem read?_text (v : Value) : read? v.text = some v := by
  simp [read?, text]

end Value
end LineScript
