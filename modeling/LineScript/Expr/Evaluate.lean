import LineScript.Expr.Token
import LineScript.Stack

/-!
Evaluation of arithmetic in infix form, by operator precedence: one stack holds values, another the
operators and open parentheses that wait for their right operands. Operators of one precedence
group from the left.
-/
namespace LineScript.Expr

/-- What waits for a right operand. -/
inductive Waiting where
  | group
  | operator (op : Operator)
  deriving DecidableEq

/-- The operator that waits, unless it binds less tightly than `precedence`. -/
def Waiting.atLeast? (precedence : Nat) : Waiting → Option Operator
  | group => none
  | operator op => if precedence ≤ op.precedence then some op else none

def missingOperand : Error :=
  .about .malformed "MISSING OPERAND".toList

def missingOpening : Error :=
  .about .malformed "MISSING (".toList

def missingClosing : Error :=
  .about .malformed "MISSING )".toList

def missingOperator : Error :=
  .about .malformed "MISSING OPERATOR".toList

/-- An evaluation under way. -/
structure Work where
  values : Stack Value
  waiting : Stack Waiting

namespace Work

def start : Work :=
  ⟨.empty, .empty⟩

/-- Replaces the top two values by the result of the operator. -/
def applyTop (values : Stack Value) (op : Operator) : Except Error (Stack Value) := do
  let ((a, b), values) ← Stack.settle (values.popPair missingOperand)
  let v ← op.apply a b
  let (_, values) ← Stack.settle (values.push v)
  return values

/-- Applies the operators that wait on top, down to one of lower precedence or a parenthesis. -/
def applyDown (precedence : Nat) (w : Work) : Except Error Work := do
  let (ops, waiting) := w.waiting.popWhile (Waiting.atLeast? precedence)
  let values ← ops.foldlM applyTop w.values
  return ⟨values, waiting⟩

def await (p : Waiting) (w : Work) : Except Error Work := do
  let (_, waiting) ← Stack.settle (w.waiting.push p)
  return { w with waiting }

def next (w : Work) : Token → Except Error Work
  | .number v => do
    let (_, values) ← Stack.settle (w.values.push v)
    return { w with values }
  | .opening => w.await .group
  | .closing => do
    let w ← w.applyDown 0
    let (_, waiting) ← Stack.settle (w.waiting.pop missingOpening)
    return { w with waiting }
  | .operator op => do
    let w ← w.applyDown op.precedence
    w.await (.operator op)

/-- Applies a waiting operator at the end of the text; no parenthesis may wait there. -/
def finish (values : Stack Value) : Waiting → Except Error (Stack Value)
  | .group => .error missingClosing
  | .operator op => applyTop values op

/-- The one value that is left when nothing waits any more. -/
def result (w : Work) : Except Error Value := do
  let values ← w.waiting.entries.foldlM finish w.values
  let (v, values) ← Stack.settle (values.pop missingOperand)
  if values.isEmpty then return v else throw missingOperator

end Work

def evaluateTokens (tokens : List Token) : Except Error Value := do
  let w ← tokens.foldlM Work.next Work.start
  w.result

/-- The value of a text of digits, operators, parentheses and blanks. -/
def evaluate (s : Text) : Except Error Value := do
  let tokens ← Token.readAll s
  evaluateTokens tokens

end LineScript.Expr
