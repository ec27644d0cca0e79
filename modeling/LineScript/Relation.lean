import LineScript.Value

/-!
The four comparisons, each written as a single character.
-/
namespace LineScript

inductive Relation where
  | less
  | greater
  | equal
  | differs
  deriving DecidableEq

namespace Relation

def symbol : Relation → Char
  | less => '<'
  | greater => '>'
  | equal => '='
  | differs => '!'

/-- The order in which a condition is searched for them. -/
def all : List Relation :=
  [less, greater, equal, differs]

/-- The first relation of `all` whose symbol occurs in the text. -/
def firstIn? (s : Text) : Option Relation :=
  all.find? fun r => s.contains r.symbol

def holds : Relation → Value → Value → Bool
  | less, a, b => a.toInt < b.toInt
  | greater, a, b => b.toInt < a.toInt
  | equal, a, b => a == b
  | differs, a, b => a != b

end Relation
end LineScript
