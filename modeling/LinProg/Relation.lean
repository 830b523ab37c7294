/-
Relations between a row and its right-hand side, and the direction of
optimisation.
-/
import LinProg.Error

namespace LinProg

/-- How the value of a row compares with its right-hand side. -/
inductive Relation where
  | less
  | greater
  | equal
deriving DecidableEq

namespace Relation

def symbol : Relation → String
  | less => "<="
  | greater => ">="
  | equal => "="

end Relation

/-- The comparisons that one can write between an expression and a number. -/
inductive Comparison where
  | lessOrEqual
  | greaterOrEqual
  | equal
  | notEqual
deriving DecidableEq

namespace Comparison

/-- The relation of the row that states a comparison; a difference cannot be stated by a row. -/
def relation : Comparison → Except Error Relation
  | lessOrEqual => .ok .less
  | greaterOrEqual => .ok .greater
  | equal => .ok .equal
  | notEqual => .error .unsupportedRelation

end Comparison

inductive Sense where
  | maximize
  | minimize
deriving DecidableEq

instance : Inhabited Sense := ⟨.minimize⟩

end LinProg
