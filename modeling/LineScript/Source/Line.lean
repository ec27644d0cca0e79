import LineScript.Source.Canonical

/-!
A numbered line of a program.
-/
namespace LineScript

structure Line where
  number : Nat
  instruction : Text
  deriving DecidableEq

namespace Line

/-- Line numbers are below this. -/
def numberBound : Nat :=
  4294967296

def badNumber : Error :=
  .about .malformed "INVALID LINE NUMBER".toList

def missingInstruction (number : Nat) : Error :=
  { kind := .malformed, line := some number, detail := "MISSING INSTRUCTION".toList }

/-- The number that a line bears: a positive one, in digits alone. -/
def number? (s : Text) : Option Nat :=
  (Text.natural? s).filter fun n => 0 < n && n < numberBound

/-- The number that a jump names; zero and a plus sign are allowed. -/
def target? (s : Text) : Option Nat :=
  (Text.unsigned? s).filter fun n => n < numberBound

/-- Reads a number and an instruction, and keeps the canonical form of the instruction. -/
def parse (s : Text) : Except Error Line :=
  let (word, code) := Text.splitWord (Text.trim s)
  match number? word with
  | none => .error badNumber
  | some number =>
    if code.isEmpty then .error (missingInstruction number)
    else .ok { number, instruction := Source.canonical code }

def text (line : Line) : Text :=
  Text.ofNat line.number ++ ' ' :: line.instruction

end Line
end LineScript
