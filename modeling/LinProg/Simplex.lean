/-
The two-phase primal simplex method.

Both phases are the same descent: pivot on the next move until there is
none, and ask before every move whether to stop.  The first phase runs it
on the cost of the artificial columns, the second on the cost of the
standard form.

The descent is bounded by the number of ways to choose a basic column for
every row, with room to spare.  With exact arithmetic the choice of moves
never returns to a basis, so the bound is not reached.  A rounded descent
may come back to a basis with slightly different values; the bound is so
generous that a request to stop is heard before.
-/
import LinProg.Tableau.Pivot

namespace LinProg

inductive Interrupt where
  | timeLimit
  | aborted
deriving DecidableEq

/-- The answers that a descent gets when it asks whether to stop, by the number of questions
before. -/
abbrev Control := Nat → Option Interrupt

namespace Control

def never : Control := fun _ => none

/-- Pass a number of questions, then stop. -/
def after (n : Nat) (why : Interrupt) : Control := fun k => if k < n then none else some why

end Control

structure Tolerances (α : Type) where
  /-- The size up to which entries are not pivoted on and costs are not profitable. -/
  pivot : α
  /-- The artificial cost up to which the equations count as satisfied. -/
  feasibility : α
deriving DecidableEq

/-- The values of a basic solution and of the dual solution that belongs to it. -/
structure BasicSolution (α : Type) where
  values : List α
  duals : List α
deriving DecidableEq

/-- What is known at the end of the simplex method. -/
inductive Verdict (α : Type) where
  | infeasible
  | optimum (solution : BasicSolution α)
  | unbounded
  /-- Stopped from outside, with the feasible solution reached so far, if there is one. -/
  | interrupted (why : Interrupt) (solution : Option (BasicSolution α))
  | numericFailure
  /-- Far more moves than there are bases. -/
  | cycled
deriving DecidableEq

/-- The verdict of a run together with the work it took. -/
structure Outcome (α : Type) where
  verdict : Verdict α
  iterations : Nat
  /-- The number of pivots and the objective at each question whether to stop. -/
  trace : List (Nat × α)
deriving DecidableEq

inductive Halt where
  | finished
  | unlimited
  | interrupted (why : Interrupt)
  /-- The bound on the number of moves was reached. -/
  | exhausted
deriving DecidableEq

structure Descent (α : Type) where
  halt : Halt
  tableau : Tableau α
  /-- The number of pivots and the objective at each question whether to stop, the latest in
  front. -/
  log : List (Nat × α)
deriving DecidableEq

structure FirstPhase (α : Type) where
  /-- The verdict of the whole run, if the first phase settles it, and otherwise the rows that
  are combinations of the others. -/
  result : Except (Verdict α) (List Nat)
  tableau : Tableau α
  log : List (Nat × α)

namespace Tableau

variable {α : Type} [Scalar α]

/-- Pivot until no move is left, asking before every move whether to stop.  `asked` questions
were asked before, as `log` tells; at most `fuel` are asked now. -/
def descend (control : Control) :
    (fuel asked : Nat) → (log : List (Nat × α)) → Tableau α → Descent α
  | 0, _, log, t => ⟨.exhausted, t, log⟩
  | fuel + 1, asked, log, t =>
      let log := (t.iterations, t.objective) :: log
      match control asked with
      | some why => ⟨.interrupted why, t, log⟩
      | none =>
          match t.move with
          | .finished => ⟨.finished, t, log⟩
          | .unlimited _ => ⟨.unlimited, t, log⟩
          | .pivot column row => descend control fuel (asked + 1) log (t.pivot column row)

/-- How often a rounded descent may come back to each basis: more often than it has time for. -/
def patience : Nat := Nat.pow 10 18

/-- The number of moves after which a descent is given up: more than there are bases. -/
def moveBound (t : Tableau α) : Nat := patience * Nat.pow t.nrColumns t.nrRows + 1

def solution (t : Tableau α) : BasicSolution α := ⟨t.basicSolution, t.duals⟩

/-- Find a solution of the equations: minimise the artificial cost, and where that comes to zero
take the artificial columns out of the basis.  Without artificial columns the first basis will
do. -/
def firstPhase (feasibility : α) (control : Control) (t : Tableau α) : FirstPhase α :=
  if t.enterable = t.firstArtificial then ⟨.ok [], t, []⟩
  else
    let d := descend control t.moveBound 0 [] t.setArtificialCost
    match d.halt with
    | .interrupted why => ⟨.error (.interrupted why none), d.tableau, d.log⟩
    | .unlimited => ⟨.error .numericFailure, d.tableau, d.log⟩
    | .exhausted => ⟨.error .cycled, d.tableau, d.log⟩
    | .finished =>
        if !d.tableau.isSound then ⟨.error .numericFailure, d.tableau, d.log⟩
        else if d.tableau.objective ≤ feasibility then
          let (t', redundant) := d.tableau.expelArtificial
          ⟨.ok redundant, t', d.log⟩
        else ⟨.error .infeasible, d.tableau, d.log⟩

/-- Minimise a cost from a feasible basis, without artificial columns; `log` tells of the
questions asked before. -/
def secondPhase (cost : List α) (control : Control) (log : List (Nat × α)) (t : Tableau α) :
    Outcome α :=
  let d := descend control t.moveBound log.length log (t.closeArtificial.setCost cost)
  let verdict :=
    match d.halt with
    | .interrupted why => .interrupted why (some d.tableau.solution)
    | .unlimited => .unbounded
    | .exhausted => .cycled
    | .finished => if d.tableau.isSound then .optimum d.tableau.solution else .numericFailure
  ⟨verdict, d.tableau.iterations, d.log.reverse⟩

end Tableau

namespace StandardForm

variable {α : Type} [Scalar α]

def minimize (tolerances : Tolerances α) (control : Control) (f : StandardForm α) : Outcome α :=
  let first := (Tableau.start f tolerances.pivot).firstPhase tolerances.feasibility control
  match first.result with
  | .error verdict => ⟨verdict, first.tableau.iterations, first.log.reverse⟩
  | .ok _ => first.tableau.secondPhase f.cost control first.log

end StandardForm

end LinProg
