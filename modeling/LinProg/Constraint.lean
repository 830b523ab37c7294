/-
Constraints: an expression related to a number.
-/
import LinProg.Expr
import LinProg.Relation

namespace LinProg

/-- A row to be: `expression relation rightHandSide`. -/
structure Constraint (α : Type) where
  expression : Expr α
  relation : Relation
  rightHandSide : α
deriving DecidableEq

namespace Expr

variable {α : Type} [Scalar α]

def relate (e : Expr α) (relation : Relation) (rightHandSide : α) : Constraint α :=
  ⟨e.settle, relation, rightHandSide⟩

def lessOrEqual (e : Expr α) (rightHandSide : α) : Constraint α := e.relate .less rightHandSide

def greaterOrEqual (e : Expr α) (rightHandSide : α) : Constraint α :=
  e.relate .greater rightHandSide

def equalTo (e : Expr α) (rightHandSide : α) : Constraint α := e.relate .equal rightHandSide

/-- The constraint that a comparison makes, if a row can state it. -/
def compare (e : Expr α) (comparison : Comparison) (rightHandSide : α) :
    Except Error (Constraint α) :=
  comparison.relation.map fun relation => e.relate relation rightHandSide

end Expr

end LinProg
