import LineScript.Expr.Substitute
import LineScript.Relation
import LineScript.Source.Then

/-!
The operands of a condition: two expressions with a relation between them, and the action after
THEN. There may be only one relation symbol of the kind that is found.
-/
namespace LineScript

structure Condition where
  left : Text
  relation : Relation
  right : Text
  action : Text
  deriving DecidableEq

namespace Condition

def missingThen : Error :=
  .about .badCondition "MISSING THEN".toList

def missingRelation : Error :=
  .about .badCondition "MISSING RELATIONAL OPERATOR".toList

/-- The two sides of the only symbol of the relation, neither of them blank. -/
def sides? (relation : Relation) (s : Text) : Option (Text × Text) :=
  match s.splitOn relation.symbol with
  | [left, right] =>
    if (Text.trim left).isEmpty || (Text.trim right).isEmpty then none else some (left, right)
  | _ => none

def parse (operands : Text) : Except Error Condition :=
  match Source.aroundThen? operands with
  | none => .error missingThen
  | some (tested, action) =>
    let tested := Text.trim tested
    match Relation.firstIn? tested with
    | none => .error missingRelation
    | some relation =>
      match sides? relation tested with
      | none => .error (.of .badCondition)
      | some (left, right) => .ok { left, relation, right, action := Text.trim action }

/-- Whether the relation holds between the values of the two sides, the left of which is computed
first. -/
def test (vars : Store) (c : Condition) : Except Error Bool := do
  let a ← Expr.evaluateIn vars c.left
  let b ← Expr.evaluateIn vars c.right
  return c.relation.holds a b

end Condition
end LineScript
