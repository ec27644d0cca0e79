import LineScript.Error
import LineScript.Value

/-!
The four binary operators. Each is computed over the integers and fails where the result is not a
value; division drops the fraction.
-/
namespace LineScript

inductive Operator where
  | add
  | sub
  | mul
  | div
  deriving DecidableEq

namespace Operator

def symbol : Operator → Char
  | add => '+'
  | sub => '-'
  | mul => '*'
  | div => '/'

def ofChar? : Char → Option Operator
  | '+' => some add
  | '-' => some sub
  | '*' => some mul
  | '/' => some div
  | _ => none

theorem ofChar?_eq_some_iff {c : Char} {op : Operator} : ofChar? c = some op ↔ c = op.symbol := by
  constructor
  · intro h
    unfold ofChar? at h
    split at h <;> cases h <;> rfl
  · rintro rfl
    cases op <;> rfl

/-- Operators of higher precedence bind tighter. -/
def precedence : Operator → Nat
  | add | sub => 1
  | mul | div => 2

/-- The result over the integers. -/
def onInt : Operator → Int → Int → Int
  | add, a, b => a + b
  | sub, a, b => a - b
  | mul, a, b => a * b
  | div, a, b => a.tdiv b

def apply (op : Operator) (a b : Value) : Except Error Value :=
  if op = div ∧ b.toInt = 0 then .error (.of .divisionByZero)
  else match Value.ofInt? (op.onInt a.toInt b.toInt) with
    | some v => .ok v
    | none => .error (.of .overflow)

end Operator
end LineScript
