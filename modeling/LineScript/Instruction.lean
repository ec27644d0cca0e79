import LineScript.Error

/-!
Instructions: a keyword and its operands, as the first word of a text and the rest of it.
-/
namespace LineScript

inductive Keyword where
  | declare
  | input
  | assign
  | push
  | pop
  | branch
  | jump
  | call
  | leave
  | print
  | printLine
  | finish
  deriving DecidableEq

namespace Keyword

def spelling : Keyword → Text
  | declare => "INTEGER".toList
  | input => "INPUT".toList
  | assign => "LET".toList
  | push => "PUSH".toList
  | pop => "POP".toList
  | branch => "IF".toList
  | jump => "GOTO".toList
  | call => "GOSUB".toList
  | leave => "RET".toList
  | print => "PRINT".toList
  | printLine => "PRINTLN".toList
  | finish => "END".toList

def all : List Keyword :=
  [declare, input, assign, push, pop, branch, jump, call, leave, print, printLine, finish]

/-- The keyword with the given spelling, in upper case only. -/
def ofText? (s : Text) : Option Keyword :=
  all.find? fun k => k.spelling == s

@[simp]
theorem ofText?_spelling (k : Keyword) : ofText? k.spelling = some k := by
  cases k <;> decide

theorem ofText?_eq_some_iff {s : Text} {k : Keyword} : ofText? s = some k ↔ s = k.spelling := by
  constructor
  · intro h
    have hk := List.find?_some (p := fun k : Keyword => k.spelling == s) (l := all) h
    exact (eq_of_beq hk).symm
  · rintro rfl
    simp

end Keyword

structure Instruction where
  keyword : Keyword
  operands : Text
  deriving DecidableEq

namespace Instruction

/-- Splits a text into keyword and operands; a first word that is no keyword is named in the
error. -/
def parse (s : Text) : Except Error Instruction :=
  let (word, operands) := Text.splitWord (Text.trim s)
  match Keyword.ofText? word with
  | some keyword => .ok { keyword, operands }
  | none => .error (.about .malformed word)

end Instruction
end LineScript
