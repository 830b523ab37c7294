/-
Engines: a model together with its configuration and the outcome of the
latest solve.

An engine numbers rows and columns from one; where an index may also mean
the objective, that is row 0.  Every edit of the model forgets the outcome,
so an outcome that is there belongs to the model as it stands.
-/
import LinProg.Config
import LinProg.Model.Edit
import LinProg.Model.Limits
import LinProg.Status

namespace LinProg

/-- The values of a solved model in the order of its rows and columns. -/
structure Solution (α : Type) where
  /-- The objective, the value of each row, the value of each column. -/
  primal : List α
  duals : List α
  reducedCosts : List α
deriving DecidableEq

/-- A request that is asked again and again whether to stop; it may change its mind. -/
structure AbortRequest where
  /-- The answer to each question, by the number of questions before it. -/
  answer : Nat → Bool
  asked : Nat

/-- A model that can be edited and solved. -/
structure Engine (α : Type) where
  config : Config α
  model : Model α
  name : Option String
  /-- Whether rows are being added, during which the matrix is not changed otherwise. -/
  rowMode : Bool
  status : Status
  solution : Option (Solution α)
  /-- The number of pivots of the latest solve. -/
  iterations : Nat
  abort : Option AbortRequest

namespace Engine

variable {α : Type} [Scalar α]

def create (rows columns : Nat) (config : Config α) : Engine α :=
  { config
    model := Model.blank rows columns config.infinity
    name := none
    rowMode := false
    status := .notRun
    solution := none
    iterations := 0
    abort := none }

def nrRows (e : Engine α) : Nat := e.model.nrRows

def nrColumns (e : Engine α) : Nat := e.model.nrColumns

def nrNonzeros (e : Engine α) : Nat := e.model.nrNonzeros

/-- The engine after a change of its model, without the outcome for the model before. -/
def withModel (e : Engine α) (m : Model α) : Engine α :=
  { e with model := m, status := .notRun, solution := none, iterations := 0 }

/-- The place of a row in the model, if it exists. -/
def rowIndex? (e : Engine α) (row : Nat) : Option Nat :=
  if 1 ≤ row ∧ row ≤ e.nrRows then some (row - 1) else none

def columnIndex? (e : Engine α) (column : Nat) : Option Nat :=
  if 1 ≤ column ∧ column ≤ e.nrColumns then some (column - 1) else none

def row? (e : Engine α) (row : Nat) : Option (Row α) := do
  let i ← e.rowIndex? row
  e.model.rows[i]?

def column? (e : Engine α) (column : Nat) : Option (Column α) := do
  let j ← e.columnIndex? column
  e.model.columns[j]?

end Engine

end LinProg
