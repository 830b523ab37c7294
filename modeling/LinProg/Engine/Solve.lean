/-
Solving the model of an engine.

The model is brought into standard form, the simplex method minimises it,
and values and prices are taken back to the rows and columns of the
model.  Before every pivot the abort request is asked and the clock read.
-/
import LinProg.Engine.Basic
import LinProg.Simplex
import LinProg.StandardForm.OfModel

namespace LinProg

namespace Solution

variable {α : Type} [Scalar α]

/-- The price of each row: the sum of the duals of its equations, which may have been flipped, in
the sense of the model. -/
def prices (m : Model α) (f : StandardForm α) (duals : List α) : List α :=
  (f.equations.zip duals).foldl
    (fun prices (q, y) =>
      match q.origin with
      | .bound => prices
      | .constraint row sign => prices.modify row (· + m.sense.sign * sign * y))
    (List.replicate m.nrRows 0)

/-- The reduced cost of each column: its cost less what its coefficients are worth. -/
def reduced (m : Model α) (prices : List α) : List α :=
  (m.rows.zip prices).foldl
    (fun d (r, y) => r.coefficients.foldl (fun d (j, x) => d.modify j (· - y * x)) d)
    (m.cost.toDense m.nrColumns)

/-- A basic solution of the standard form of a model, in terms of the model. -/
def ofBasic (m : Model α) (f : StandardForm α) (b : BasicSolution α) : Solution α :=
  let x := f.substitutions.map fun s => s.value b.values
  let y := prices m f b.duals
  { primal := m.cost.dot x :: (m.rows.map (fun r => r.coefficients.dot x) ++ x)
    duals := y
    reducedCosts := reduced m y }

end Solution

namespace Verdict

variable {α : Type}

/-- The status of a model for a verdict on its standard form. -/
def status : Verdict α → Status
  | optimum _ => .optimal
  | infeasible => .infeasible
  | unbounded => .unbounded
  | numericFailure => .numFailure
  | cycled => .degenerate
  | interrupted .timeLimit (some _) => .subOptimal
  | interrupted .timeLimit none => .timeout
  | interrupted .aborted _ => .userAbort

/-- The solution that a verdict comes with. -/
def solution? : Verdict α → Option (BasicSolution α)
  | optimum s => some s
  | interrupted _ s => s
  | _ => none

end Verdict

namespace Engine

variable {α : Type} [Scalar α]

/-- The milliseconds since the start of a solve, by the number of readings before. -/
abbrev Clock := Nat → Nat

/-- The answers to the questions of a solve whether to stop: the abort request is heard first,
then the clock is read against the time limit. -/
def control (e : Engine α) (clock : Clock) : Control := fun k =>
  if e.abort.any fun a => a.answer (a.asked + k) then some .aborted
  else if e.config.timeLimit.any fun limit => limit ≤ clock k then some .timeLimit
  else none

def tolerances (e : Engine α) : Tolerances α := ⟨e.config.epsilon, e.config.feasibilityTolerance⟩

/-- Solve the model.  This ends the adding of rows.  A model that has no standard form cannot be
satisfied. -/
def solve (clock : Clock) (e : Engine α) : Engine α :=
  match e.model.standardForm e.config.infinity with
  | .error _ => { e with rowMode := false, solution := none, status := .infeasible }
  | .ok f =>
      let outcome := f.minimize e.tolerances (e.control clock)
      { e with
        rowMode := false
        status := outcome.verdict.status
        solution := outcome.verdict.solution?.map (Solution.ofBasic e.model f)
        iterations := outcome.iterations
        abort := e.abort.map fun a => { a with asked := a.asked + outcome.trace.length } }

/-- Whether values, laid out as the primal values of a solution, lie within all bounds and limits
or outside by no more than a threshold. -/
def isFeasible (e : Engine α) (values : List α) (threshold : α) : Bool :=
  let x := values.drop (1 + e.nrRows)
  decide (values.length = 1 + e.nrRows + e.nrColumns)
    && (e.model.columns.zip x).all (fun (c, v) =>
      decide (c.lower - threshold ≤ v) && decide (v ≤ c.upper + threshold))
    && e.model.rows.all fun r => r.limits.holds threshold (r.coefficients.dot x)

def objective? (e : Engine α) : Option α := e.solution.bind fun s => s.primal.head?

end Engine

end LinProg
