import LineScript.Condition
import LineScript.Instruction
import LineScript.Machine.Basic

/-!
What each instruction does. An instruction gives an event, or none, or an error, and in each case
the machine that it leaves.
-/
namespace LineScript.Machine

abbrev Outcome := Except Error (Option Event) × Machine

def proceed (m : Machine) : Outcome :=
  (.ok none, m)

def fail (e : Error) (m : Machine) : Outcome :=
  (.error e, m)

/-- Goes on with a result, or fails with the machine as it is. -/
def attempt {α : Type} (r : Except Error α) (m : Machine) (next : α → Outcome) : Outcome :=
  match r with
  | .ok a => next a
  | .error e => m.fail e

def names (operands : Text) : List Text :=
  operands.splitOn ','

def declare (operands : Text) (m : Machine) : Outcome :=
  let (r, vars) := m.vars.declareAll (names operands)
  (r.map fun _ => none, { m with vars })

def input (number : Nat) (operands : Text) (m : Machine) : Outcome :=
  match (names operands).find? fun name => !m.vars.contains name with
  | some name => m.fail (Store.undeclared name)
  | none => (.ok (some .input), { m with phase := .awaiting number (names operands) none })

/-- The value of the right side of an assignment; a numeral is read as it stands. -/
def assigned (vars : Store) (s : Text) : Except Error Value :=
  if Text.isDigits s then Value.ofDigits s else Expr.evaluateIn vars s

/-- Assigns a value to a variable. -/
def store (name : Text) (v : Value) (m : Machine) : Outcome :=
  m.attempt (m.vars.assign name v) fun vars => proceed { m with vars }

def assign (operands : Text) (m : Machine) : Outcome :=
  let sides := operands.splitOn '='
  let name := sides.headD []
  if !m.vars.contains name then m.fail (Store.undeclared name)
  else match sides with
    | [_, s] => m.attempt (assigned m.vars s) fun v => m.store name v
    | _ => m.fail (.of .badAssignment)

def push (operands : Text) (m : Machine) : Outcome :=
  m.attempt (Expr.evaluateIn m.vars operands) fun v =>
    let (r, stack) := m.stack.push v
    (r.map fun _ => none, { m with stack })

def pop (operands : Text) (m : Machine) : Outcome :=
  if !m.vars.contains operands then m.fail (Store.undeclared operands)
  else
    let (r, stack) := m.stack.pop (.of .stackEmpty)
    let m := { m with stack }
    m.attempt r fun v => m.store operands v

/-- Continues at the first line with the given number or a higher one. -/
def goTo (number : Nat) (m : Machine) : Machine :=
  { m with counter := m.program.locate number }

def target (operands : Text) : Except Error Nat :=
  match Line.target? operands with
  | some number => .ok number
  | none => .error Line.badNumber

def jump (operands : Text) (m : Machine) : Outcome :=
  m.attempt (target operands) fun number => proceed (m.goTo number)

def call (operands : Text) (m : Machine) : Outcome :=
  m.attempt (target operands) fun number =>
    let (r, calls) := m.calls.push m.counter
    let m := { m with calls }
    m.attempt r fun _ => proceed (m.goTo number)

def leave (m : Machine) : Outcome :=
  let (r, calls) := m.calls.pop (.of .noCaller)
  let m := { m with calls }
  m.attempt r fun counter => proceed { m with counter }

/-- What is printed: the value of a variable, the text of a quotation without its quotes, or the
value of an expression. -/
def printed (vars : Store) (operands : Text) : Except Error Text :=
  if operands.isEmpty then .ok []
  else match vars.lookup? operands with
    | some x => .ok x.value.text
    | none =>
      if operands.head? = some '"' then .ok (operands.filter fun c => c != '"')
      else (Expr.evaluateIn vars operands).map Value.text

def print (operands ending : Text) (m : Machine) : Outcome :=
  m.attempt (printed m.vars operands) fun text => (.ok (some (.print (text ++ ending))), m)

/-- The action of a condition that holds. Only printing and jumping are actions; anything else is
passed over. -/
def act (action : Text) (m : Machine) : Outcome :=
  match Instruction.parse action with
  | .ok ⟨.print, operands⟩ => m.print operands []
  | .ok ⟨.printLine, operands⟩ => m.print operands ['\n']
  | .ok ⟨.jump, operands⟩ => m.jump operands
  | _ => m.proceed

def branch (operands : Text) (m : Machine) : Outcome :=
  m.attempt (Condition.parse operands) fun c =>
    m.attempt (c.test m.vars) fun holds => if holds then m.act c.action else m.proceed

def finish (m : Machine) : Outcome :=
  (.ok (some .ended), { m with phase := .halted })

/-- Carries out an instruction of the line with the given number. -/
def obey (number : Nat) (i : Instruction) (m : Machine) : Outcome :=
  match i.keyword with
  | .declare => m.declare i.operands
  | .input => m.input number i.operands
  | .assign => m.assign i.operands
  | .push => m.push i.operands
  | .pop => m.pop i.operands
  | .branch => m.branch i.operands
  | .jump => m.jump i.operands
  | .call => m.call i.operands
  | .leave => m.leave
  | .print => m.print i.operands []
  | .printLine => m.print i.operands ['\n']
  | .finish => m.finish

/-- Carries out a line. -/
def carryOut (line : Line) (m : Machine) : Outcome :=
  m.attempt (Instruction.parse line.instruction) fun i => m.obey line.number i

end LineScript.Machine
