/-
The status of a model after a solve, with its numeric code and its
description.
-/

namespace LinProg

/-- How far the solving of a model has come. -/
inductive Status where
  | noMemory
  /-- Not solved since the model was made or last changed. -/
  | notRun
  | optimal
  /-- A feasible solution was found before the solve was stopped. -/
  | subOptimal
  | infeasible
  | unbounded
  /-- The basis cycled and the solve could not go on. -/
  | degenerate
  | numFailure
  | userAbort
  /-- The time limit passed before a feasible solution was found. -/
  | timeout
  /-- The model was solved by simplifications alone. -/
  | presolved
deriving DecidableEq

namespace Status

instance : Inhabited Status := ⟨notRun⟩

def all : List Status :=
  [noMemory, notRun, optimal, subOptimal, infeasible, unbounded, degenerate, numFailure,
   userAbort, timeout, presolved]

def code : Status → Int
  | noMemory => -2
  | notRun => -1
  | optimal => 0
  | subOptimal => 1
  | infeasible => 2
  | unbounded => 3
  | degenerate => 4
  | numFailure => 5
  | userAbort => 6
  | timeout => 7
  | presolved => 9

def ofCode? (code : Int) : Option Status := all.find? fun s => s.code == code

def name : Status → String
  | noMemory => "NoMemory"
  | notRun => "NotRun"
  | optimal => "Optimal"
  | subOptimal => "SubOptimal"
  | infeasible => "Infeasible"
  | unbounded => "Unbounded"
  | degenerate => "Degenerate"
  | numFailure => "NumFailure"
  | userAbort => "UserAbort"
  | timeout => "Timeout"
  | presolved => "Presolved"

def description : Status → String
  | noMemory => "Out of memory"
  | notRun => "Model has not been solved yet"
  | optimal => "OPTIMAL solution"
  | subOptimal => "SUB-OPTIMAL solution"
  | infeasible => "This problem is infeasible"
  | unbounded => "This problem is unbounded"
  | degenerate => "DEGENERATE situation"
  | numFailure => "NUMERICAL FAILURE encountered"
  | userAbort => "User-requested termination"
  | timeout => "Termination due to timeout"
  | presolved => "Presolved solution"

/-- Whether a status promises a solution that satisfies all constraints. -/
def hasFeasibleSolution : Status → Bool
  | optimal | subOptimal | presolved => true
  | _ => false

theorem ofCode?_code (s : Status) : ofCode? s.code = some s := by cases s <;> rfl

end Status

end LinProg
