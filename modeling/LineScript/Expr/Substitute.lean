import LineScript.Expr.Evaluate
import LineScript.Store

/-!
Values put in the place of names. A name starts with a character that is neither a delimiter nor a
digit and goes on to the next delimiter; a digit that does not continue a name is part of a numeral
and is kept, as the delimiters are.
-/
namespace LineScript.Expr

/-- The characters that end a name. -/
def isDelimiter (c : Char) : Bool :=
  Text.isBlank c || c == '(' || c == ')' || (Operator.ofChar? c).isSome

/-- A value as an operand of arithmetic without signs. A negative value is written as a difference
of numerals, each of them in range. -/
def operand (v : Value) : Text :=
  match v.toInt with
  | .ofNat n => Text.ofNat n
  | .negSucc n => "(0-".toList ++ Text.ofNat n ++ "-1)".toList

/-- A text substituted in part: what is written, and the name that may go on, both with the last
character first. -/
structure Draft where
  written : Text
  name : Text

namespace Draft

def start : Draft :=
  ⟨[], []⟩

def write (d : Draft) (c : Char) : Draft :=
  { d with written := c :: d.written }

/-- Ends the name, if there is one, and writes its value. -/
def close (vars : Store) (d : Draft) : Except Error Draft :=
  if d.name.isEmpty then .ok d
  else do
    let v ← vars.valueOf d.name.reverse
    return ⟨(operand v).reverse ++ d.written, []⟩

def next (vars : Store) (d : Draft) (c : Char) : Except Error Draft :=
  if isDelimiter c then do
    let d ← d.close vars
    return d.write c
  else if c.isDigit && d.name.isEmpty then .ok (d.write c)
  else .ok { d with name := c :: d.name }

end Draft

/-- The text with the values of the variables for their names. -/
def substitute (vars : Store) (s : Text) : Except Error Text := do
  let d ← s.foldlM (Draft.next vars) Draft.start
  let d ← d.close vars
  return d.written.reverse

/-- The value of an expression in variables. -/
def evaluateIn (vars : Store) (s : Text) : Except Error Value := do
  let closed ← substitute vars s
  evaluate closed

end LineScript.Expr
