import LineScript.Operator
import LineScript.Text.Quoted

/-!
The tokens of an arithmetic text: numerals, parentheses and operators, with any blanks between
them. Reading goes through the text once, so reading two texts in a row is reading the one and then
the other (`List.foldlM_append`).
-/
namespace LineScript

inductive Token where
  | number (v : Value)
  | opening
  | closing
  | operator (op : Operator)
  deriving DecidableEq

/-- The value of a run of digits; too large a one is named in the error. -/
def Value.ofDigits (digits : Text) : Except Error Value :=
  match ofInt? (Nat.ofDigitChars 10 digits 0) with
  | some v => .ok v
  | none => .error (.about .overflow digits)

namespace Token

/-- The token that a character is by itself. -/
def ofChar? : Char → Option Token
  | '(' => some opening
  | ')' => some closing
  | c => (Operator.ofChar? c).map operator

/-- A text read in part: the digits of a numeral that may go on, and the tokens before it, the last
one first in both. -/
structure Scan where
  digits : Text
  tokens : List Token

namespace Scan

def start : Scan :=
  ⟨[], []⟩

/-- Ends the numeral, if there is one. -/
def close (s : Scan) : Except Error Scan :=
  if s.digits.isEmpty then .ok s
  else do
    let v ← Value.ofDigits s.digits.reverse
    return ⟨[], number v :: s.tokens⟩

def next (s : Scan) (c : Char) : Except Error Scan :=
  if c.isDigit then .ok { s with digits := c :: s.digits }
  else do
    let s ← s.close
    if Text.isBlank c then return s
    match ofChar? c with
    | some t => return { s with tokens := t :: s.tokens }
    | none => throw (.about .malformed ("UNEXPECTED ".toList ++ Text.quoted c))

end Scan

/-- The tokens of a text, or the first thing in it that is none. -/
def readAll (s : Text) : Except Error (List Token) := do
  let scan ← s.foldlM Scan.next Scan.start
  let scan ← scan.close
  return scan.tokens.reverse

end Token
end LineScript
