/-
Adding rows in bulk.

While rows are added in bulk the engine is in the row adding mode.  What
switched the mode on switches it off again at the end.
-/
import LinProg.Solver.Basic

namespace LinProg
namespace Solver

variable {α β : Type} [Scalar α]

/-- Do something with the row adding mode switched on. -/
def bulkInsert (body : Solver α → β × Solver α) (s : Solver α) : β × Solver α :=
  let (switchedOn, engine) := s.engine.perform (.setRowMode true)
  let (result, s') := body { s with engine }
  (result, if switchedOn then (s'.perform (.setRowMode false)).2 else s')

end Solver
end LinProg
