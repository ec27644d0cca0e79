import LineScript.Text.Numeral

/-!
What can go wrong, and the wording of it. An error has a kind, the number of the program line in
which it arose if that is known, and a detail that may be empty.
-/
namespace LineScript

inductive ErrorKind where
  | malformed
  | badName
  | undeclared
  | badAssignment
  | badCondition
  | stackEmpty
  | noCaller
  | missingInput
  | badNumber
  | divisionByZero
  | overflow
  | outOfMemory
  | interrupted
  | internal
  | fileNotFound
  deriving DecidableEq

def ErrorKind.text : ErrorKind → Text
  | malformed => "SYNTAX ERROR".toList
  | badName => "INVALID IDENTIFIER".toList
  | undeclared => "UNDECLARED VARIABLE".toList
  | badAssignment => "INVALID ASSIGNMENT".toList
  | badCondition => "INVALID CONDITION".toList
  | stackEmpty => "STACK UNDERFLOW".toList
  | noCaller => "RET WITHOUT GOSUB".toList
  | missingInput => "MISSING INPUT".toList
  | badNumber => "INVALID NUMBER".toList
  | divisionByZero => "DIVISION BY ZERO".toList
  | overflow => "OVERFLOW".toList
  | outOfMemory => "OUT OF MEMORY".toList
  | interrupted => "BREAK".toList
  | internal => "INTERNAL ERROR".toList
  | fileNotFound => "FILE NOT FOUND".toList

structure Error where
  kind : ErrorKind
  line : Option Nat := none
  detail : Text := []
  deriving DecidableEq

namespace Error

/-- An error without a line number or a detail. -/
def of (kind : ErrorKind) : Error :=
  { kind }

/-- An error with a detail and without a line number. -/
def about (kind : ErrorKind) (detail : Text) : Error :=
  { kind, detail }

/-- Names the line in which the error arose; a line already named is kept. -/
def inLine (e : Error) (n : Nat) : Error :=
  { e with line := e.line.or (some n) }

/-- The kind, the line after the word IN, and the detail after a semicolon. -/
def message (e : Error) : Text :=
  let place := match e.line with
    | none => []
    | some n => " IN ".toList ++ Text.ofNat n
  let detail := if e.detail.isEmpty then [] else "; ".toList ++ e.detail
  e.kind.text ++ place ++ detail

/-- The message in the braces of a record. -/
def inspect (e : Error) : Text :=
  "Error \x7b ".toList ++ e.message ++ " \x7d".toList

@[simp]
theorem line_inLine (e : Error) (n : Nat) : (e.inLine n).line = some (e.line.getD n) := by
  cases h : e.line <;> simp [inLine, h]

@[simp]
theorem inLine_inLine (e : Error) (m n : Nat) : (e.inLine m).inLine n = e.inLine m := by
  cases h : e.line <;> simp [inLine, h]

theorem exists_of_map_ok {α β : Type} {x : Except Error α} {f : α → β} {b : β}
    (h : x.map f = .ok b) : ∃ a, x = .ok a ∧ f a = b := by
  cases x with
  | error e => cases h
  | ok a => exact ⟨a, rfl, Except.ok.inj h⟩

/-- Of two steps that succeed, the first has given what the second went on with. -/
theorem exists_of_bind_ok {α β : Type} {x : Except Error α} {f : α → Except Error β} {b : β}
    (h : x >>= f = .ok b) : ∃ a, x = .ok a ∧ f a = .ok b := by
  cases x with
  | error e => cases h
  | ok a => exact ⟨a, rfl, h⟩

end Error
end LineScript
