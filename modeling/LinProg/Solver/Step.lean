/-
The steps of a session with a solver as data: what a caller does to it,
one call after the other.
-/
import LinProg.Solver.Bulk
import LinProg.Solver.Views

namespace LinProg
namespace Solver

/-- Everything that can be done to a solver. -/
inductive Step (α : Type) where
  | addConstraint (c : Constraint α)
  | setRow (row : Nat) (e : Expr α)
  | setObjective (e : Expr α)
  | deleteColumn (column : Nat)
  | deleteConstraint (row : Nat)
  | setElement (row column : Nat) (x : α)
  | limitColumn (column : Nat) (factor bound : α)
  | onRow (row : Nat) (edit : RowEdit α)
  | onColumn (column : Nat) (edit : ColumnEdit α)
  | engine (edit : Engine.Edit α)
  | bulk (steps : List (Step α))

variable {α : Type} [Scalar α]

mutual

/-- Take a step.  The answer says whether it was accepted; steps in bulk are as a whole. -/
def step (s : Solver α) : Step α → Answer × Solver α
  | .addConstraint c => s.addConstraint c
  | .setRow row e => s.setRow row e
  | .setObjective e => s.setObjective e
  | .deleteColumn column => s.deleteColumn column
  | .deleteConstraint row => s.deleteConstraint row
  | .setElement row column x => s.setElement row column x
  | .limitColumn column factor bound => s.limitColumn column factor bound
  | .onRow row edit => s.editRow row edit
  | .onColumn column edit => s.editColumn column edit
  | .engine edit => s.perform edit
  | .bulk steps => s.bulkInsert fun s => (.ok true, s.steps steps)

def steps (s : Solver α) : List (Step α) → Solver α
  | [] => s
  | step :: rest => (s.step step).2.steps rest

end

end Solver
end LinProg
